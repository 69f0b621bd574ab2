import Mathlib

/-!
# Brace expansion

A text with groups in braces stands for several texts: one alternative is chosen in each group,
in the groups of the alternative that is chosen too.  `Grammar` says which symbols are braces and
separators, what letter another symbol is, and which bodies are no alternatives but stand for a
list of texts on their own, such as a range of numbers.

`Expands` is the list of the texts that a text stands for, in the order in which the alternatives
are written, the first group varying slowest.  It is a function of the text (`Expands.unique`) and
splits where braces are balanced (`expands_append`), so a group can be replaced by its
alternatives one after the other (`expands_group`).
-/

namespace CodeLib.Braces

/-- The symbols of a text with groups, and what they mean. -/
structure Grammar (α β : Type) where
  opens : α → Bool
  closes : α → Bool
  separates : α → Bool
  /-- The letter of a symbol that is no brace. -/
  letter : α → β
  /-- The texts of a body that is no list of alternatives. -/
  values : List α → Option (List (List β))
  opens_not_closes : ∀ a, opens a = true → closes a = false

variable {α β : Type} (g : Grammar α β)

/-- The depth behind a text, if no brace closes what is not open. -/
def level : ℕ → List α → Option ℕ
  | k, [] => some k
  | k, a :: w =>
    if g.opens a then level (k + 1) w
    else if g.closes a then
      if k = 0 then none else level (k - 1) w
    else level k w

/-- Every brace of the text has its counterpart in the text. -/
def Balanced (w : List α) : Prop := level g 0 w = some 0

/-- Put a symbol in front of the first part. -/
def consHead (a : α) : List (List α) → List (List α)
  | [] => [[a]]
  | part :: parts => (a :: part) :: parts

/-- The parts of a text between the separators outside of groups. -/
def alternativesFrom : ℕ → List α → List (List α)
  | _, [] => [[]]
  | k, a :: w =>
    if g.opens a then consHead a (alternativesFrom (k + 1) w)
    else if g.closes a then consHead a (alternativesFrom (k - 1) w)
    else if g.separates a = true ∧ k = 0 then [] :: alternativesFrom 0 w
    else consHead a (alternativesFrom k w)

/-- The alternatives of a group. -/
def alternatives (body : List α) : List (List α) := alternativesFrom g 0 body

/-- Each text of the first list in front of each text of the second. -/
def product (xs ys : List (List β)) : List (List β) :=
  xs.flatMap fun x => ys.map (x ++ ·)

/-- The texts that a text with groups stands for. -/
inductive Expands : List α → List (List β) → Prop
  | nil : Expands [] [[]]
  | letter {a w xs} (hopens : g.opens a = false) (hcloses : g.closes a = false)
      (hw : Expands w xs) : Expands (a :: w) (xs.map (g.letter a :: ·))
  | values {a body b w vs xs} (ha : g.opens a = true) (hbody : Balanced g body)
      (hb : g.closes b = true) (hvs : g.values body = some vs) (hw : Expands w xs) :
      Expands (a :: (body ++ b :: w)) (product vs xs)
  | choice {a body b w vss xs} (ha : g.opens a = true) (hbody : Balanced g body)
      (hb : g.closes b = true) (hvs : g.values body = none)
      (hlen : vss.length = (alternatives g body).length)
      (halts : ∀ p ∈ (alternatives g body).zip vss, Expands p.1 p.2) (hw : Expands w xs) :
      Expands (a :: (body ++ b :: w)) (product vss.flatten xs)

variable {g} {w body rest a b : List α} {xs ys zs : List (List β)}

/-! ## Products -/

@[simp] theorem product_unit_left : product [[]] ys = ys := by
  simp [product]

theorem product_append_left : product (xs ++ ys) zs = product xs zs ++ product ys zs :=
  List.flatMap_append

theorem product_assoc : product (product xs ys) zs = product xs (product ys zs) := by
  simp only [product, List.flatMap_assoc, List.flatMap_map, List.map_flatMap, List.map_map]
  refine List.flatMap_congr fun x _ => List.flatMap_congr fun y _ => List.map_congr_left ?_
  intro z _
  exact List.append_assoc x y z

theorem product_cons (c : β) : product (xs.map (c :: ·)) ys = (product xs ys).map (c :: ·) := by
  simp only [product, List.flatMap_map, List.map_flatMap, List.map_map]
  rfl

theorem product_flatten (vss : List (List (List β))) :
    product vss.flatten ys = (vss.map fun vs => product vs ys).flatten := by
  induction vss with
  | nil => rfl
  | cons vs vss ih => rw [List.flatten_cons, product_append_left, ih, List.map_cons,
      List.flatten_cons]

/-! ## Levels -/

theorem level_append (k : ℕ) : level g k (a ++ b) = (level g k a).bind fun k => level g k b := by
  induction a generalizing k with
  | nil => rfl
  | cons s a ih =>
    rw [List.cons_append, level, level]
    split
    · exact ih _
    · split
      · split
        · rfl
        · exact ih _
      · exact ih k

theorem level_add {k k' : ℕ} (h : level g k w = some k') (n : ℕ) :
    level g (k + n) w = some (k' + n) := by
  induction w generalizing k with
  | nil => rw [level, Option.some.inj h]
  | cons s w ih =>
    rw [level] at h ⊢
    split
    · rename_i hs
      rw [if_pos hs] at h
      rw [Nat.add_right_comm]
      exact ih h
    · rename_i hs
      rw [if_neg hs] at h
      split
      · rename_i hs'
        rw [if_pos hs'] at h
        by_cases hk : k = 0
        · rw [if_pos hk] at h
          exact absurd h.symm (Option.some_ne_none k')
        · rw [if_neg hk] at h
          rw [if_neg (by omega), show k + n - 1 = k - 1 + n by omega]
          exact ih h
      · rename_i hs'
        rw [if_neg hs'] at h
        exact ih h

theorem balanced_of_letters (h : ∀ s ∈ w, g.opens s = false ∧ g.closes s = false) :
    Balanced g w := by
  induction w with
  | nil => rfl
  | cons s w ih =>
    obtain ⟨hopens, hcloses⟩ := h s List.mem_cons_self
    rw [Balanced, level, if_neg (by simp [hopens]), if_neg (by simp [hcloses])]
    exact ih fun t ht => h t (List.mem_cons_of_mem _ ht)

/-- A text that leaves a group has the end of the group. -/
private theorem exists_close_from {j k : ℕ} (h : level g (k + 1 + j) w = some 0) :
    ∃ body c rest, w = body ++ c :: rest ∧ level g j body = some 0 ∧ g.closes c = true ∧
      level g k rest = some 0 := by
  induction w generalizing j with
  | nil => exact absurd (Option.some.inj h) (by omega)
  | cons s w ih =>
    rw [level] at h
    by_cases hopens : g.opens s = true
    · rw [if_pos hopens] at h
      obtain ⟨body, c, rest, rfl, hbody, hc, hrest⟩ := @ih (j + 1) h
      refine ⟨s :: body, c, rest, rfl, ?_, hc, hrest⟩
      rw [level, if_pos hopens]
      exact hbody
    · rw [if_neg hopens] at h
      by_cases hcloses : g.closes s = true
      · rw [if_pos hcloses, if_neg (by omega)] at h
        cases j with
        | zero => exact ⟨[], s, w, rfl, rfl, hcloses, h⟩
        | succ j =>
          obtain ⟨body, c, rest, rfl, hbody, hc, hrest⟩ := @ih j h
          refine ⟨s :: body, c, rest, rfl, ?_, hc, hrest⟩
          rw [level, if_neg hopens, if_pos hcloses, if_neg (by omega)]
          exact hbody
      · rw [if_neg hcloses] at h
        obtain ⟨body, c, rest, rfl, hbody, hc, hrest⟩ := @ih j h
        refine ⟨s :: body, c, rest, rfl, ?_, hc, hrest⟩
        rw [level, if_neg hopens, if_neg hcloses]
        exact hbody

theorem exists_close {s : α} (hs : g.opens s = true) (h : Balanced g (s :: w)) :
    ∃ body c rest, w = body ++ c :: rest ∧ Balanced g body ∧ g.closes c = true ∧
      Balanced g rest := by
  rw [Balanced, level, if_pos hs] at h
  exact exists_close_from h

/-- The end of a group is determined. -/
theorem close_unique {body body' w w' : List α} {c c' : α} (hbody : Balanced g body)
    (hbody' : Balanced g body') (hc : g.closes c = true) (hc' : g.closes c' = true)
    (h : body ++ c :: w = body' ++ c' :: w') : body = body' ∧ c = c' ∧ w = w' := by
  have hstuck : ∀ {body more : List α} {c : α}, Balanced g body → g.closes c = true →
      ¬ Balanced g (body ++ c :: more) := by
    intro body more c hbody hc hmore
    have hopens : ¬ g.opens c = true := fun h => by simp [g.opens_not_closes c h] at hc
    rw [Balanced, level_append, hbody, Option.bind_some, level, if_neg hopens, if_pos hc,
      if_pos rfl] at hmore
    exact absurd hmore.symm (Option.some_ne_none 0)
  rcases List.append_eq_append_iff.mp h with ⟨more, rfl, hmore⟩ | ⟨more, rfl, hmore⟩
  · cases more with
    | nil =>
      obtain ⟨rfl, rfl⟩ := List.cons.inj hmore
      exact ⟨(List.append_nil body).symm, rfl, rfl⟩
    | cons d more =>
      obtain ⟨rfl, -⟩ := List.cons.inj hmore
      exact absurd hbody' (hstuck hbody hc)
  · cases more with
    | nil =>
      obtain ⟨rfl, rfl⟩ := List.cons.inj hmore
      exact ⟨List.append_nil body', rfl, rfl⟩
    | cons d more =>
      obtain ⟨rfl, -⟩ := List.cons.inj hmore
      exact absurd hbody (hstuck hbody' hc')

/-! ## Alternatives -/

theorem consHead_ne_nil (s : α) (parts : List (List α)) : consHead s parts ≠ [] := by
  cases parts <;> exact List.cons_ne_nil _ _

theorem alternativesFrom_ne_nil (k : ℕ) (w : List α) : alternativesFrom g k w ≠ [] := by
  cases w with
  | nil => exact List.cons_ne_nil _ _
  | cons s w =>
    unfold alternativesFrom
    split
    · exact consHead_ne_nil s _
    · split
      · exact consHead_ne_nil s _
      · split
        · exact List.cons_ne_nil _ _
        · exact consHead_ne_nil s _

/-- The first part leaves the groups that were open, the others are balanced. -/
theorem level_of_mem_alternativesFrom {k : ℕ} (h : level g k w = some 0) :
    ∃ part parts, alternativesFrom g k w = part :: parts ∧ level g k part = some 0 ∧
      ∀ c ∈ parts, Balanced g c := by
  induction w generalizing k with
  | nil => exact ⟨[], [], rfl, h, fun c hc => absurd hc List.not_mem_nil⟩
  | cons s w ih =>
    rw [level] at h
    rw [alternativesFrom]
    by_cases hopens : g.opens s = true
    · rw [if_pos hopens] at h ⊢
      obtain ⟨part, parts, heq, hpart, hparts⟩ := ih h
      refine ⟨s :: part, parts, by rw [heq]; rfl, ?_, hparts⟩
      rw [level, if_pos hopens]
      exact hpart
    · rw [if_neg hopens] at h ⊢
      by_cases hcloses : g.closes s = true
      · rw [if_pos hcloses] at h ⊢
        by_cases hk : k = 0
        · rw [if_pos hk] at h
          exact absurd h.symm (Option.some_ne_none 0)
        · rw [if_neg hk] at h
          obtain ⟨part, parts, heq, hpart, hparts⟩ := ih h
          refine ⟨s :: part, parts, by rw [heq]; rfl, ?_, hparts⟩
          rw [level, if_neg hopens, if_pos hcloses, if_neg hk]
          exact hpart
      · rw [if_neg hcloses] at h ⊢
        by_cases hsep : g.separates s = true ∧ k = 0
        · rw [if_pos hsep]
          obtain ⟨_, rfl⟩ := hsep
          obtain ⟨part, parts, heq, hpart, hparts⟩ := ih h
          refine ⟨[], part :: parts, by rw [heq], rfl, ?_⟩
          intro c hc
          rcases List.mem_cons.mp hc with rfl | hc
          · exact hpart
          · exact hparts c hc
        · rw [if_neg hsep]
          obtain ⟨part, parts, heq, hpart, hparts⟩ := ih h
          refine ⟨s :: part, parts, by rw [heq]; rfl, ?_, hparts⟩
          rw [level, if_neg hopens, if_neg hcloses]
          exact hpart

theorem balanced_of_mem_alternatives (h : Balanced g body) :
    ∀ c ∈ alternatives g body, Balanced g c := by
  obtain ⟨part, parts, heq, hpart, hparts⟩ := level_of_mem_alternativesFrom h
  intro c hc
  rw [alternatives, heq] at hc
  rcases List.mem_cons.mp hc with rfl | hc
  · exact hpart
  · exact hparts c hc

/-! ## Expansion -/

/-- Lists of one length with the same first members have the same last members. -/
private theorem eq_of_zip {γ δ : Type} {P Q : γ → δ → Prop} {l : List γ} {ds es : List δ}
    (hunique : ∀ c d e, P c d → Q c e → d = e) (hds : ds.length = l.length)
    (hes : es.length = l.length) (h : ∀ p ∈ l.zip ds, P p.1 p.2)
    (h' : ∀ p ∈ l.zip es, Q p.1 p.2) : ds = es := by
  induction l generalizing ds es with
  | nil => rw [List.length_eq_zero_iff.mp hds, List.length_eq_zero_iff.mp hes]
  | cons c l ih =>
    cases ds with
    | nil => exact absurd hds (by simp)
    | cons d ds =>
      cases es with
      | nil => exact absurd hes (by simp)
      | cons e es =>
        rw [List.zip_cons_cons] at h h'
        rw [hunique c d e (h (c, d) List.mem_cons_self) (h' (c, e) List.mem_cons_self),
          ih (Nat.succ.inj hds) (Nat.succ.inj hes)
            (fun p hp => h p (List.mem_cons_of_mem _ hp))
            fun p hp => h' p (List.mem_cons_of_mem _ hp)]

/-- A text stands for one list of texts. -/
theorem Expands.unique (h : Expands g w xs) (h' : Expands g w ys) : xs = ys := by
  induction h generalizing ys with
  | nil => cases h'; rfl
  | letter hopens hcloses _ ih =>
    cases h' with
    | letter _ _ hw' => rw [ih hw']
    | values ha => simp [hopens] at ha
    | choice ha => simp [hopens] at ha
  | @values s body b w vs xs ha hbody hb hvs _ ih =>
    generalize hrest : body ++ b :: w = rest at h'
    cases h' with
    | letter hopens => simp [hopens] at ha
    | values _ hbody' hb' hvs' hw' =>
      obtain ⟨rfl, rfl, rfl⟩ := close_unique hbody hbody' hb hb' hrest
      rw [ih hw', Option.some.inj (hvs.symm.trans hvs')]
    | choice _ hbody' hb' hvs' =>
      obtain ⟨rfl, rfl, rfl⟩ := close_unique hbody hbody' hb hb' hrest
      rw [hvs] at hvs'
      exact absurd hvs' (Option.some_ne_none vs)
  | @choice s body b w vss xs ha hbody hb hvs hlen _ _ ihs ih =>
    generalize hrest : body ++ b :: w = rest at h'
    cases h' with
    | letter hopens => simp [hopens] at ha
    | values _ hbody' hb' hvs' =>
      obtain ⟨rfl, rfl, rfl⟩ := close_unique hbody hbody' hb hb' hrest
      rw [hvs] at hvs'
      exact absurd hvs'.symm (Option.some_ne_none _)
    | choice _ hbody' hb' hvs' hlen' halts' hw' =>
      obtain ⟨rfl, rfl, rfl⟩ := close_unique hbody hbody' hb hb' hrest
      have heq := @eq_of_zip _ _ (fun c vs => ∀ {ys}, Expands g c ys → vs = ys)
        (fun c vs => Expands g c vs) _ _ _ (fun c d e hd he => hd he) hlen hlen'
        (fun p hp {ys} => ihs p hp) halts'
      rw [ih hw', heq]

theorem Expands.append (ha : Expands g a xs) (hb : Expands g b ys) :
    Expands g (a ++ b) (product xs ys) := by
  induction ha with
  | nil => rwa [List.nil_append, product_unit_left]
  | letter hopens hcloses _ ih =>
    rw [product_cons]
    exact .letter hopens hcloses ih
  | values ha hbody hc hvs _ ih =>
    rw [product_assoc, List.cons_append, List.append_assoc, List.cons_append]
    exact .values ha hbody hc hvs ih
  | choice ha hbody hc hvs hlen halts _ _ ih =>
    rw [product_assoc, List.cons_append, List.append_assoc, List.cons_append]
    exact .choice ha hbody hc hvs hlen halts ih

/-- Behind a balanced text, the rest stands for texts of its own. -/
theorem exists_of_expands_append (ha : Balanced g a) (h : Expands g (a ++ b) zs) :
    ∃ xs ys, Expands g a xs ∧ Expands g b ys ∧ zs = product xs ys := by
  induction hn : a.length using Nat.strongRecOn generalizing a zs with
  | _ n ih =>
    cases a with
    | nil => exact ⟨[[]], zs, .nil, h, product_unit_left.symm⟩
    | cons s a =>
      rw [List.cons_append] at h
      generalize hrest : a ++ b = rest at h
      have hsplit : ∀ {body c w}, g.opens s = true → Balanced g body → g.closes c = true →
          body ++ c :: w = rest → ∃ a', a = body ++ c :: a' ∧ w = a' ++ b ∧ Balanced g a' := by
        intro body c w hs hbody hc heq
        obtain ⟨body', c', a', rfl, hbody', hc', ha'⟩ := exists_close hs ha
        rw [← hrest, List.append_assoc, List.cons_append] at heq
        obtain ⟨rfl, rfl, rfl⟩ := close_unique hbody hbody' hc hc' heq
        exact ⟨a', rfl, rfl, ha'⟩
      have hshort : ∀ {body a' : List α} {c : α}, a = body ++ c :: a' → a'.length < n := by
        intro body a' c heq
        rw [← hn, heq]
        simp only [List.length_cons, List.length_append]
        omega
      cases h with
      | letter hopens hcloses hw =>
        subst hrest
        have ha' : Balanced g a := by
          rw [Balanced, level, if_neg (by simp [hopens]), if_neg (by simp [hcloses])] at ha
          exact ha
        obtain ⟨xs, ys, hxs, hys, rfl⟩ := ih a.length (by rw [← hn, List.length_cons]; omega)
          ha' hw rfl
        exact ⟨_, ys, .letter hopens hcloses hxs, hys, (product_cons _).symm⟩
      | values hs hbody hc hvs hw =>
        obtain ⟨a', rfl, rfl, ha'⟩ := hsplit hs hbody hc rfl
        obtain ⟨xs, ys, hxs, hys, rfl⟩ := ih a'.length (hshort rfl) ha' hw rfl
        exact ⟨_, ys, .values hs hbody hc hvs hxs, hys, product_assoc.symm⟩
      | choice hs hbody hc hvs hlen halts hw =>
        obtain ⟨a', rfl, rfl, ha'⟩ := hsplit hs hbody hc rfl
        obtain ⟨xs, ys, hxs, hys, rfl⟩ := ih a'.length (hshort rfl) ha' hw rfl
        exact ⟨_, ys, .choice hs hbody hc hvs hlen halts hxs, hys, product_assoc.symm⟩

/-- Without braces a text stands for itself. -/
theorem expands_letters (h : ∀ s ∈ w, g.opens s = false ∧ g.closes s = false) :
    Expands g w [w.map g.letter] := by
  induction w with
  | nil => exact .nil
  | cons s w ih =>
    obtain ⟨hopens, hcloses⟩ := h s List.mem_cons_self
    exact .letter hopens hcloses (ih fun t ht => h t (List.mem_cons_of_mem _ ht))

/-- Only a balanced text stands for texts. -/
theorem Expands.balanced (h : Expands g w xs) : Balanced g w := by
  have hgroup : ∀ {s c : α} {body w : List α}, g.opens s = true → Balanced g body →
      g.closes c = true → Balanced g w → Balanced g (s :: (body ++ c :: w)) := by
    intro s c body w hs hbody hc hw
    have hopens : ¬ g.opens c = true := fun h => by simp [g.opens_not_closes c h] at hc
    rw [Balanced, level, if_pos hs, level_append, level_add hbody 1, Option.bind_some, level,
      if_neg hopens, if_pos hc, if_neg (by decide)]
    exact hw
  induction h with
  | nil => rfl
  | letter hopens hcloses _ ih =>
    rw [Balanced, level, if_neg (by simp [hopens]), if_neg (by simp [hcloses])]
    exact ih
  | values hs hbody hc _ _ ih => exact hgroup hs hbody hc ih
  | choice hs hbody hc _ _ _ _ _ ih => exact hgroup hs hbody hc ih

/-! ## Texts and their symbols -/

variable (g)

private theorem sublist_of_mem_consHead {p : List α} {parts : List (List α)} {s : α}
    (hparts : ∀ q ∈ parts, q.Sublist w) (h : p ∈ consHead s parts) : p.Sublist (s :: w) := by
  cases parts with
  | nil =>
    rw [List.mem_singleton.mp h]
    exact (List.nil_sublist w).cons_cons s
  | cons part parts =>
    rcases List.mem_cons.mp h with rfl | h
    · exact (hparts part List.mem_cons_self).cons_cons s
    · exact (hparts p (List.mem_cons_of_mem _ h)).cons s

/-- A part is written in the text. -/
theorem sublist_of_mem_alternativesFrom {k : ℕ} :
    ∀ p ∈ alternativesFrom g k w, p.Sublist w := by
  induction w generalizing k with
  | nil =>
    intro p hp
    rw [List.mem_singleton.mp hp]
  | cons s w ih =>
    intro p hp
    unfold alternativesFrom at hp
    split at hp
    · exact sublist_of_mem_consHead ih hp
    · split at hp
      · exact sublist_of_mem_consHead ih hp
      · split at hp
        · rcases List.mem_cons.mp hp with rfl | hp
          · exact List.nil_sublist _
          · exact (ih p hp).cons s
        · exact sublist_of_mem_consHead ih hp

/-- A symbol that separates nothing is in a part. -/
theorem exists_mem_alternativesFrom {k : ℕ} {s : α} (hs : g.separates s = false) (h : s ∈ w) :
    ∃ p ∈ alternativesFrom g k w, s ∈ p := by
  induction w generalizing k with
  | nil => exact absurd h List.not_mem_nil
  | cons t w ih =>
    have hhead : ∀ {parts : List (List α)}, (s ∈ w → ∃ p ∈ parts, s ∈ p) →
        ∃ p ∈ consHead t parts, s ∈ p := by
      intro parts hparts
      rcases List.mem_cons.mp h with rfl | h
      · cases parts with
        | nil => exact ⟨_, List.mem_cons_self, List.mem_cons_self⟩
        | cons part parts => exact ⟨_, List.mem_cons_self, List.mem_cons_self⟩
      · obtain ⟨p, hp, hmem⟩ := hparts h
        cases parts with
        | nil => exact absurd hp List.not_mem_nil
        | cons part parts =>
          rcases List.mem_cons.mp hp with rfl | hp
          · exact ⟨_, List.mem_cons_self, List.mem_cons_of_mem t hmem⟩
          · exact ⟨p, List.mem_cons_of_mem _ hp, hmem⟩
    unfold alternativesFrom
    split
    · exact hhead ih
    · split
      · exact hhead ih
      · split
        · rename_i hsep
          rcases List.mem_cons.mp h with rfl | h
          · exact absurd hsep.1 (by simp [hs])
          · obtain ⟨p, hp, hmem⟩ := @ih 0 h
            exact ⟨p, List.mem_cons_of_mem _ hp, hmem⟩
        · exact hhead ih

variable {g}

private theorem exists_zip_of_forall {γ δ : Type} {P : γ → δ → Prop} {l : List γ}
    (h : ∀ c ∈ l, ∃ d, P c d) :
    ∃ ds : List δ, ds.length = l.length ∧ ∀ p ∈ l.zip ds, P p.1 p.2 := by
  induction l with
  | nil => exact ⟨[], rfl, fun p hp => absurd hp List.not_mem_nil⟩
  | cons c l ih =>
    obtain ⟨d, hd⟩ := h c List.mem_cons_self
    obtain ⟨ds, hlen, hds⟩ := ih fun c hc => h c (List.mem_cons_of_mem _ hc)
    refine ⟨d :: ds, congrArg Nat.succ hlen, ?_⟩
    intro p hp
    rw [List.zip_cons_cons] at hp
    rcases List.mem_cons.mp hp with rfl | hp
    · exact hd
    · exact hds p hp

theorem exists_mem_zip {γ δ : Type} {l : List γ} {ds : List δ}
    (hlen : ds.length = l.length) {c : γ} (hc : c ∈ l) : ∃ d ∈ ds, (c, d) ∈ l.zip ds := by
  rw [← List.map_fst_zip (Nat.le_of_eq hlen.symm)] at hc
  obtain ⟨⟨c, d⟩, hp, rfl⟩ := List.mem_map.mp hc
  exact ⟨d, (List.of_mem_zip hp).2, hp⟩

/-- A balanced text stands for texts. -/
theorem Balanced.exists_expands (h : Balanced g w) : ∃ xs, Expands g w xs := by
  induction hn : w.length using Nat.strong_induction_on generalizing w with
  | _ n ih =>
    cases w with
    | nil => exact ⟨_, .nil⟩
    | cons s w =>
      by_cases hopens : g.opens s = true
      · obtain ⟨body, c, rest, rfl, hbody, hc, hrest⟩ := exists_close hopens h
        rw [List.length_cons, List.length_append, List.length_cons] at hn
        obtain ⟨xs, hxs⟩ := ih rest.length (by omega) hrest rfl
        cases hvs : g.values body with
        | some vs => exact ⟨_, .values hopens hbody hc hvs hxs⟩
        | none =>
          have halts : ∀ p ∈ alternatives g body, ∃ vs, Expands g p vs := by
            intro p hp
            have hle := (sublist_of_mem_alternativesFrom g p hp).length_le
            exact ih p.length (by omega) (balanced_of_mem_alternatives hbody p hp) rfl
          obtain ⟨vss, hlen, hvss⟩ := exists_zip_of_forall halts
          exact ⟨_, .choice hopens hbody hc hvs hlen hvss hxs⟩
      · rw [Balanced, level, if_neg hopens] at h
        rw [Bool.not_eq_true] at hopens
        by_cases hcloses : g.closes s = true
        · rw [if_pos hcloses, if_pos rfl] at h
          exact absurd h.symm (Option.some_ne_none 0)
        · rw [if_neg hcloses] at h
          obtain ⟨xs, hxs⟩ := ih w.length (by rw [← hn]; exact Nat.lt_succ_self _) h rfl
          exact ⟨_, .letter hopens (by simpa using hcloses) hxs⟩

theorem mem_product {z : List β} : z ∈ product xs ys ↔ ∃ x ∈ xs, ∃ y ∈ ys, x ++ y = z := by
  rw [product, List.mem_flatMap]
  exact exists_congr fun x => and_congr Iff.rfl List.mem_map

theorem product_ne_nil (hxs : xs ≠ []) (hys : ys ≠ []) : product xs ys ≠ [] := by
  obtain ⟨x, hx⟩ := List.exists_mem_of_ne_nil xs hxs
  obtain ⟨y, hy⟩ := List.exists_mem_of_ne_nil ys hys
  exact List.ne_nil_of_mem (mem_product.mpr ⟨x, hx, y, hy, rfl⟩)

/-- A text stands for a text at least, if each body of values does. -/
theorem Expands.ne_nil (hvalues : ∀ body vs, g.values body = some vs → vs ≠ [])
    (h : Expands g w xs) : xs ≠ [] := by
  induction h with
  | nil => exact List.cons_ne_nil _ _
  | letter _ _ _ ih => exact fun h => ih (List.map_eq_nil_iff.mp h)
  | values _ _ _ hvs _ ih => exact product_ne_nil (hvalues _ _ hvs) ih
  | @choice _ body _ _ vss _ _ _ _ _ hlen _ _ ihs ih =>
    refine product_ne_nil ?_ ih
    obtain ⟨p, hp⟩ := List.exists_mem_of_ne_nil _ (@alternativesFrom_ne_nil _ _ g 0 body)
    obtain ⟨vs, hvs, hzip⟩ := exists_mem_zip hlen hp
    obtain ⟨v, hv⟩ := List.exists_mem_of_ne_nil vs (ihs _ hzip)
    exact List.ne_nil_of_mem (List.mem_flatten.mpr ⟨vs, hvs, hv⟩)

/-- What is in a text of the second list is in a text of the product. -/
theorem exists_mem_product_right {b : β} (hxs : ∃ x, x ∈ xs) (hys : ∃ y ∈ ys, b ∈ y) :
    ∃ z ∈ product xs ys, b ∈ z := by
  obtain ⟨x, hx⟩ := hxs
  obtain ⟨y, hy, hmem⟩ := hys
  exact ⟨x ++ y, mem_product.mpr ⟨x, hx, y, hy, rfl⟩, List.mem_append_right x hmem⟩

/-- A symbol that is no brace is in the body of a group or behind the group. -/
theorem mem_body_or_mem_behind {s o c : α} {back : List α}
    (hs : g.opens s = false ∧ g.closes s = false) (ho : g.opens o = true)
    (hc : g.closes c = true) (hmem : s ∈ o :: (body ++ c :: back)) : s ∈ body ∨ s ∈ back := by
  rcases List.mem_cons.mp hmem with rfl | hmem
  · exact absurd ho (by simp [hs.1])
  · rcases List.mem_append.mp hmem with hmem | hmem
    · exact Or.inl hmem
    · rcases List.mem_cons.mp hmem with rfl | hmem
      · exact absurd hc (by simp [hs.2])
      · exact Or.inr hmem

/-- A symbol that means nothing but its letter is in one of the texts. -/
theorem Expands.exists_mem {s : α} (hs : g.opens s = false ∧ g.closes s = false)
    (hsep : g.separates s = false)
    (hvalues : ∀ body vs, g.values body = some vs → vs ≠ [] ∧ s ∉ body)
    (h : Expands g w xs) (hmem : s ∈ w) : ∃ x ∈ xs, g.letter s ∈ x := by
  have hsome : ∀ {w : List α} {xs : List (List β)}, Expands g w xs → ∃ x, x ∈ xs := by
    intro w xs h
    exact List.exists_mem_of_ne_nil xs (h.ne_nil fun body vs hvs => (hvalues body vs hvs).1)
  induction h with
  | nil => exact absurd hmem List.not_mem_nil
  | @letter a w xs _ _ hw ih =>
    rcases List.mem_cons.mp hmem with rfl | hmem
    · obtain ⟨x, hx⟩ := hsome hw
      exact ⟨_, List.mem_map_of_mem hx, List.mem_cons_self⟩
    · obtain ⟨x, hx, hin⟩ := ih hmem
      exact ⟨_, List.mem_map_of_mem hx, List.mem_cons_of_mem _ hin⟩
  | @values a body b w vs xs ha _ hb hvs _ ih =>
    obtain ⟨hne, hnot⟩ := hvalues body vs hvs
    rcases mem_body_or_mem_behind hs ha hb hmem with hmem | hmem
    · exact absurd hmem hnot
    · exact exists_mem_product_right (List.exists_mem_of_ne_nil vs hne) (ih hmem)
  | @choice a body b w vss xs ha _ hb _ hlen halts hw ihs ih =>
    rcases mem_body_or_mem_behind hs ha hb hmem with hmem | hmem
    · obtain ⟨p, hp, hin⟩ := @exists_mem_alternativesFrom _ _ g _ 0 _ hsep hmem
      obtain ⟨vs, hvs, hzip⟩ := exists_mem_zip hlen hp
      obtain ⟨v, hv, hletter⟩ := ihs _ hzip hin
      obtain ⟨x, hx⟩ := hsome hw
      exact ⟨v ++ x, mem_product.mpr ⟨v, List.mem_flatten.mpr ⟨vs, hvs, hv⟩, x, hx, rfl⟩,
        List.mem_append_left x hletter⟩
    · obtain ⟨p, hp⟩ := List.exists_mem_of_ne_nil _ (@alternativesFrom_ne_nil _ _ g 0 body)
      obtain ⟨vs, hvs, hzip⟩ := exists_mem_zip hlen hp
      obtain ⟨v, hv⟩ := hsome (halts _ hzip)
      exact exists_mem_product_right ⟨v, List.mem_flatten.mpr ⟨vs, hvs, hv⟩⟩ (ih hmem)

/-! ## Groups -/

variable (g) (plain : List β → List α)

/-- What can stand in the place of a group: its alternatives, or the texts that its body stands
for, written as symbols. -/
def choices (body : List α) : List (List α) :=
  match g.values body with
  | some vs => vs.map plain
  | none => alternatives g body

/-- A text of letters is written with symbols that are no braces. -/
def Spells : Prop :=
  ∀ v, (∀ s ∈ plain v, g.opens s = false ∧ g.closes s = false) ∧ (plain v).map g.letter = v

variable {g plain} {s c : α} {front back : List α}

theorem Spells.expands (hplain : Spells g plain) (v : List β) : Expands g (plain v) [v] := by
  have h := expands_letters (hplain v).1
  rwa [(hplain v).2] at h

theorem balanced_of_mem_choices (hplain : Spells g plain) (hbody : Balanced g body) :
    ∀ w ∈ choices g plain body, Balanced g w := by
  intro w hw
  unfold choices at hw
  split at hw
  · obtain ⟨v, _, rfl⟩ := List.mem_map.mp hw
    exact balanced_of_letters (hplain v).1
  · exact balanced_of_mem_alternatives hbody w hw

/-- A group stands for what its choices stand for, one after the other. -/
theorem expands_group_iff (hplain : Spells g plain) (hs : g.opens s = true)
    (hbody : Balanced g body) (hc : g.closes c = true) :
    Expands g (s :: (body ++ c :: back)) zs ↔
      ∃ vss xs, vss.length = (choices g plain body).length ∧
        (∀ p ∈ (choices g plain body).zip vss, Expands g p.1 p.2) ∧ Expands g back xs ∧
        zs = product vss.flatten xs := by
  have hflatten : ∀ vs : List (List β), (vs.map fun v => [v]).flatten = vs := by
    intro vs
    induction vs with
    | nil => rfl
    | cons v vs ih => rw [List.map_cons, List.flatten_cons, ih, List.singleton_append]
  have hvalues : ∀ vs : List (List β),
      ∀ p ∈ (vs.map plain).zip (vs.map fun v => [v]), Expands g p.1 p.2 := by
    intro vs p hp
    rw [List.zip_map', List.mem_map] at hp
    obtain ⟨v, _, rfl⟩ := hp
    exact hplain.expands v
  constructor
  · intro h
    generalize hrest : body ++ c :: back = rest at h
    cases h with
    | letter hopens => simp [hopens] at hs
    | @values _ _ _ _ vs xs _ hbody' hc' hvs hw =>
      obtain ⟨rfl, rfl, rfl⟩ := close_unique hbody hbody' hc hc' hrest
      refine ⟨vs.map fun v => [v], xs, ?_, ?_, hw, ?_⟩
      · rw [choices, hvs, List.length_map, List.length_map]
      · rw [choices, hvs]
        exact hvalues vs
      · rw [hflatten]
    | @choice _ _ _ _ vss xs _ hbody' hc' hvs hlen halts hw =>
      obtain ⟨rfl, rfl, rfl⟩ := close_unique hbody hbody' hc hc' hrest
      refine ⟨vss, xs, ?_, ?_, hw, rfl⟩
      · rw [choices, hvs, hlen]
      · rw [choices, hvs]
        exact halts
  · intro h
    obtain ⟨vss, xs, hlen, halts, hback, rfl⟩ := h
    cases hvs : g.values body with
    | some vs =>
      simp only [choices, hvs] at hlen halts
      have heq : vss = vs.map fun v => [v] :=
        @eq_of_zip _ _ (Expands g) (Expands g) _ _ _ (fun _ _ _ h h' => h.unique h') hlen
          (by rw [List.length_map, List.length_map]) halts (hvalues vs)
      rw [heq, hflatten]
      exact .values hs hbody hc hvs hback
    | none =>
      simp only [choices, hvs] at hlen halts
      exact .choice hs hbody hc hvs hlen halts hback

/-- Put the choices between two texts. -/
private theorem exists_of_expands_between {parts : List (List α)} {zss : List (List (List β))}
    {xs : List (List β)} (hfront : ∀ t ∈ front, g.opens t = false ∧ g.closes t = false)
    (hparts : ∀ w ∈ parts, Balanced g w) (hback : Expands g back xs)
    (hlen : zss.length = parts.length)
    (h : ∀ p ∈ parts.zip zss, Expands g (front ++ (p.1 ++ back)) p.2) :
    ∃ vss, vss.length = parts.length ∧ (∀ p ∈ parts.zip vss, Expands g p.1 p.2) ∧
      zss.flatten = product [front.map g.letter] (product vss.flatten xs) := by
  induction parts generalizing zss with
  | nil =>
    rw [List.length_eq_zero_iff.mp hlen]
    exact ⟨[], rfl, fun p hp => absurd hp List.not_mem_nil, rfl⟩
  | cons w parts ih =>
    cases zss with
    | nil => exact absurd hlen (by simp)
    | cons zs zss =>
      rw [List.zip_cons_cons] at h
      obtain ⟨vss, hvss, halts, hflat⟩ := ih (fun w hw => hparts w (List.mem_cons_of_mem _ hw))
        (Nat.succ.inj hlen) fun p hp => h p (List.mem_cons_of_mem _ hp)
      obtain ⟨fs, rs, hfs, hrs, rfl⟩ := exists_of_expands_append (balanced_of_letters hfront)
        (h (w, zs) List.mem_cons_self)
      obtain ⟨vs, xs', hvs, hxs', rfl⟩ := exists_of_expands_append
        (hparts w List.mem_cons_self) hrs
      obtain rfl := hxs'.unique hback
      obtain rfl := hfs.unique (expands_letters hfront)
      refine ⟨vs :: vss, congrArg Nat.succ hvss, ?_, ?_⟩
      · intro p hp
        rw [List.zip_cons_cons] at hp
        rcases List.mem_cons.mp hp with rfl | hp
        · exact hvs
        · exact halts p hp
      · have hsingle : ∀ {f : List β} {xs ys : List (List β)},
            product [f] (xs ++ ys) = product [f] xs ++ product [f] ys := by
          intro f xs ys
          simp [product]
        rw [List.flatten_cons, List.flatten_cons, hflat, product_append_left, hsingle]

/-- Behind letters, the first group can be replaced by its choices one after the other. -/
theorem expands_group (hplain : Spells g plain) (hne : choices g plain body ≠ [])
    (hfront : ∀ t ∈ front, g.opens t = false ∧ g.closes t = false) (hs : g.opens s = true)
    (hbody : Balanced g body) (hc : g.closes c = true) :
    Expands g (front ++ s :: (body ++ c :: back)) zs ↔
      ∃ zss : List (List (List β)), zss.length = (choices g plain body).length ∧
        (∀ p ∈ (choices g plain body).zip zss, Expands g (front ++ (p.1 ++ back)) p.2) ∧
        zs = zss.flatten := by
  constructor
  · intro h
    obtain ⟨fs, rs, hfs, hrs, rfl⟩ := exists_of_expands_append (balanced_of_letters hfront) h
    obtain ⟨vss, xs, hlen, halts, hback, rfl⟩ := (expands_group_iff hplain hs hbody hc).mp hrs
    obtain rfl := hfs.unique (expands_letters hfront)
    refine ⟨vss.map fun vs => product [front.map g.letter] (product vs xs), ?_, ?_, ?_⟩
    · rw [List.length_map, hlen]
    · intro p hp
      rw [List.zip_map_right, List.mem_map] at hp
      obtain ⟨q, hq, rfl⟩ := hp
      exact hfs.append ((halts q hq).append hback)
    · rw [product_flatten]
      simp [product, List.map_flatten, Function.comp_def]
  · intro h
    obtain ⟨zss, hlen, halts, rfl⟩ := h
    obtain ⟨xs, hback⟩ : ∃ xs, Expands g back xs := by
      obtain ⟨w, parts, hw⟩ := List.exists_cons_of_ne_nil hne
      rw [hw] at hlen halts
      obtain ⟨zs, zss, rfl⟩ := List.exists_cons_of_length_eq_add_one hlen
      obtain ⟨_, rs, _, hrs, _⟩ := exists_of_expands_append (balanced_of_letters hfront)
        (halts (w, zs) List.mem_cons_self)
      obtain ⟨_, xs, _, hxs, _⟩ := exists_of_expands_append
        (balanced_of_mem_choices hplain hbody w (hw ▸ List.mem_cons_self)) hrs
      exact ⟨xs, hxs⟩
    obtain ⟨vss, hvss, hvalts, hflat⟩ := exists_of_expands_between hfront
      (balanced_of_mem_choices hplain hbody) hback hlen halts
    rw [hflat]
    exact (expands_letters hfront).append
      ((expands_group_iff hplain hs hbody hc).mpr ⟨vss, xs, hvss, hvalts, hback, rfl⟩)

end CodeLib.Braces
