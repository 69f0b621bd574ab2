import Psign.CodeLib.Base128
import Psign.Trust.ArtifactSigning

/-!
# The identity in a certificate

What `artifact_signing_identity_from_certificate` returns, from the object identifiers in the
extended key usage of a certificate.

The decoder takes an object identifier exactly if it is the canonical encoding of arcs that fit into
64 bits (`decodeOidArcs_eq_ok`).  The loops over the extensions are followed with `scanOf`, the state
that a list of arcs leads to; a certificate is refused as soon as two of its object identifiers are
different identities.  So a result depends on the set of the object identifiers only, and the kind and
the publisher identifier give the object identifier back.
-/

namespace Psign.Trust

open CodeLib CodeLib.Base128 Psign.Sip

/-! ## Object identifiers -/

/-- The arcs of an object identifier that fit into 64 bits: the first two are one subidentifier. -/
def ValidArcs : List ℕ → Prop
  | first :: second :: rest => first ≤ 2 ∧ (first < 2 → second < 40) ∧
      40 * first + second < 2 ^ 64 ∧ ∀ arc ∈ rest, arc < 2 ^ 64
  | _ => False

/-- The base-128 encoding of an object identifier. -/
def encodeOidArcs : List ℕ → List UInt8
  | first :: second :: rest => ((40 * first + second) :: rest).flatMap base128
  | _ => []

/-- Some subidentifiers below 2^64, encoded canonically. -/
def CanonicalOid (oid : List UInt8) : Prop :=
  ∃ subidentifiers : List ℕ, subidentifiers ≠ [] ∧ (∀ n ∈ subidentifiers, n < 2 ^ 64) ∧
    oid = subidentifiers.flatMap base128

theorem subidentifiersFrom_high {n : ℕ} (hn : n < 2 ^ 64) (subidentifiers : List ℕ)
    (rest : List UInt8) :
    subidentifiersFrom true 0 subidentifiers (high n ++ rest) =
      subidentifiersFrom (decide (n = 0)) n subidentifiers rest := by
  induction n using Nat.strongRecOn generalizing rest with
  | ind n ih =>
    by_cases hzero : n = 0
    · rw [hzero, high_zero]
      rfl
    · have hmod := Nat.mod_lt n (show 128 > 0 by decide)
      have hbyte : (UInt8.ofNat (128 + n % 128)).toNat = 128 + n % 128 := by
        rw [UInt8.toNat_ofNat', Nat.mod_eq_of_lt (by omega)]
      have hcontinues : ¬ UInt8.ofNat (128 + n % 128) < 0x80 := by
        rw [UInt8.lt_iff_toNat_lt, hbyte]
        exact Nat.not_lt.mpr (Nat.le_add_right 128 _)
      have hstart : ¬ (decide (n / 128 = 0) = true ∧ UInt8.ofNat (128 + n % 128) = 0x80) := by
        rintro ⟨hhigh, hgroup⟩
        have hnumber : 128 + n % 128 = 128 := hbyte.symm.trans (congrArg UInt8.toNat hgroup)
        have := of_decide_eq_true hhigh
        omega
      have hfits : n / 128 ≤ (2 ^ 64 - 1) / 2 ^ 7 := by omega
      rw [high_of_pos (Nat.pos_of_ne_zero hzero), List.append_assoc, List.singleton_append,
        ih (n / 128) (by omega) (by omega), subidentifiersFrom, Outcome.guardThat_of hstart,
        Outcome.ok_bind, Outcome.guardThat_of hfits, Outcome.ok_bind, if_neg hcontinues, hbyte,
        show n / 128 * 128 + (128 + n % 128) % 128 = n by omega, decide_eq_false hzero]

theorem subidentifiersFrom_base128 {n : ℕ} (hn : n < 2 ^ 64) (subidentifiers : List ℕ)
    (rest : List UInt8) :
    subidentifiersFrom true 0 subidentifiers (base128 n ++ rest) =
      subidentifiersFrom true 0 (subidentifiers ++ [n]) rest := by
  have hbyte : (UInt8.ofNat (n % 128)).toNat = n % 128 := by
    rw [UInt8.toNat_ofNat', Nat.mod_eq_of_lt (by omega)]
  have hlast : UInt8.ofNat (n % 128) < 0x80 := by
    rw [UInt8.lt_iff_toNat_lt, hbyte]
    exact Nat.mod_lt n (by decide)
  have hstart : ¬ (decide (n / 128 = 0) = true ∧ UInt8.ofNat (n % 128) = 0x80) := by
    rintro ⟨-, hgroup⟩
    rw [hgroup] at hlast
    exact absurd hlast (by decide)
  have hfits : n / 128 ≤ (2 ^ 64 - 1) / 2 ^ 7 := by omega
  rw [base128, List.append_assoc, subidentifiersFrom_high (by omega), List.singleton_append,
    subidentifiersFrom, Outcome.guardThat_of hstart, Outcome.ok_bind, Outcome.guardThat_of hfits,
    Outcome.ok_bind, if_pos hlast, hbyte, show n / 128 * 128 + n % 128 % 128 = n by omega]

theorem subidentifiersFrom_flatMap {ns : List ℕ} (hns : ∀ n ∈ ns, n < 2 ^ 64)
    (subidentifiers : List ℕ) :
    subidentifiersFrom true 0 subidentifiers (ns.flatMap base128) =
      .ok (subidentifiers ++ ns, true) := by
  induction ns generalizing subidentifiers with
  | nil => rw [List.flatMap_nil, subidentifiersFrom, List.append_nil]
  | cons n ns ih =>
    rw [List.flatMap_cons, subidentifiersFrom_base128 (hns n List.mem_cons_self),
      ih fun m hm => hns m (List.mem_cons_of_mem n hm), List.append_assoc]
    rfl

/-- The bytes that the loop has taken for the number it is at, and those that are left, are an
encoding of the subidentifiers that it adds. -/
theorem eq_of_subidentifiersFrom {current : ℕ} {subidentifiers out : List ℕ}
    {value : List UInt8}
    (h : subidentifiersFrom (decide (current = 0)) current subidentifiers value = .ok (out, true)) :
    ∃ ns, out = subidentifiers ++ ns ∧ (∀ n ∈ ns, n < 2 ^ 64) ∧
      high current ++ value = ns.flatMap base128 := by
  induction value generalizing current subidentifiers with
  | nil =>
    obtain ⟨hout, hcomplete⟩ := Prod.mk.inj (Except.ok.inj h)
    refine ⟨[], ?_, fun n hn => absurd hn List.not_mem_nil, ?_⟩
    · rw [List.append_nil, hout]
    · rw [of_decide_eq_true hcomplete, high_zero]
      rfl
  | cons byte rest ih =>
    rw [subidentifiersFrom, Outcome.guardThat_bind_eq_ok, Outcome.guardThat_bind_eq_ok] at h
    obtain ⟨hstart, hfits, h⟩ := h
    rw [decide_eq_true_eq] at hstart
    by_cases hlast : byte < 0x80
    · rw [if_pos hlast] at h
      obtain ⟨ns, rfl, hns, hrest⟩ := @ih 0 _ h
      have hn : current * 128 + byte.toNat % 128 < 2 ^ 64 := by omega
      refine ⟨(current * 128 + byte.toNat % 128) :: ns, ?_, List.forall_mem_cons.mpr ⟨hn, hns⟩, ?_⟩
      · rw [List.append_assoc]
        rfl
      · rw [high_zero, List.nil_append] at hrest
        rw [List.flatMap_cons, base128_of_last hlast, ← hrest, List.append_assoc,
          List.singleton_append]
    · have hhigh := high_cons hlast hstart
      have hpos : current * 128 + byte.toNat % 128 ≠ 0 := by
        intro hzero
        rw [hzero, high_zero] at hhigh
        exact List.append_ne_nil_of_right_ne_nil (high current) (List.cons_ne_nil byte []) hhigh.symm
      rw [if_neg hlast, ← decide_eq_false hpos] at h
      obtain ⟨ns, hout, hns, hrest⟩ := ih h
      refine ⟨ns, hout, hns, ?_⟩
      rw [← hrest, hhigh, List.append_assoc, List.singleton_append]

/-- The decoder takes the canonical encodings of valid arcs, and returns the arcs. -/
theorem decodeOidArcs_eq_ok {value : List UInt8} {arcs : List ℕ} :
    decodeOidArcs value = .ok arcs ↔ ValidArcs arcs ∧ value = encodeOidArcs arcs := by
  unfold decodeOidArcs
  constructor
  · intro h
    rw [Outcome.bind_eq_ok] at h
    obtain ⟨⟨subidentifiers, complete⟩, hread, h⟩ := h
    cases complete with
    | false => exact absurd h Outcome.bail_ne_ok
    | true =>
      obtain ⟨ns, hout, hns, hvalue⟩ := @eq_of_subidentifiersFrom 0 [] _ _ hread
      obtain rfl : subidentifiers = ns := hout
      rw [high_zero, List.nil_append] at hvalue
      cases subidentifiers with
      | nil => exact absurd h Outcome.bail_ne_ok
      | cons first rest =>
        obtain ⟨hfirst, hrest⟩ := List.forall_mem_cons.mp hns
        dsimp only at h
        by_cases hzero : first ≤ 39
        · rw [if_pos hzero] at h
          obtain rfl := Except.ok.inj h
          refine ⟨⟨by omega, fun _ => by omega, by omega, hrest⟩, ?_⟩
          rw [encodeOidArcs, hvalue, show 40 * 0 + first = first by omega]
        · rw [if_neg hzero] at h
          by_cases hone : first ≤ 79
          · rw [if_pos hone] at h
            obtain rfl := Except.ok.inj h
            refine ⟨⟨by omega, fun _ => by omega, by omega, hrest⟩, ?_⟩
            rw [encodeOidArcs, hvalue, show 40 * 1 + (first - 40) = first by omega]
          · rw [if_neg hone] at h
            obtain rfl := Except.ok.inj h
            refine ⟨⟨by omega, fun hlt => absurd hlt (by omega), by omega, hrest⟩, ?_⟩
            rw [encodeOidArcs, hvalue, show 40 * 2 + (first - 80) = first by omega]
  · rintro ⟨hvalid, rfl⟩
    match arcs, hvalid with
    | first :: second :: rest, ⟨hfirst, hsecond, hone, hrest⟩ =>
      rw [encodeOidArcs, subidentifiersFrom_flatMap (List.forall_mem_cons.mpr ⟨hone, hrest⟩),
        Outcome.ok_bind, List.nil_append]
      dsimp only
      have hcases : first = 0 ∨ first = 1 ∨ first = 2 := by omega
      rcases hcases with rfl | rfl | rfl
      · rw [if_pos (by omega), show 40 * 0 + second = second by omega]
      · rw [if_neg (by omega), if_pos (by omega), show 40 * 1 + second - 40 = second by omega]
      · rw [if_neg (by omega), if_neg (by omega), show 40 * 2 + second - 80 = second by omega]

theorem encodeOidArcs_injective {arcs arcs' : List ℕ} (hvalid : ValidArcs arcs)
    (hvalid' : ValidArcs arcs') (h : encodeOidArcs arcs = encodeOidArcs arcs') : arcs = arcs' :=
  Except.ok.inj ((decodeOidArcs_eq_ok.mpr ⟨hvalid, rfl⟩).symm.trans
    (decodeOidArcs_eq_ok.mpr ⟨hvalid', h⟩))

/-- An object identifier is canonical exactly if it encodes valid arcs. -/
theorem canonicalOid_iff {oid : List UInt8} :
    CanonicalOid oid ↔ ∃ arcs, ValidArcs arcs ∧ oid = encodeOidArcs arcs := by
  constructor
  · rintro ⟨subidentifiers, hne, hsmall, rfl⟩
    have hread := subidentifiersFrom_flatMap hsmall []
    have hdecodes : ∃ arcs, decodeOidArcs (subidentifiers.flatMap base128) = .ok arcs := by
      unfold decodeOidArcs
      rw [hread, Outcome.ok_bind, List.nil_append]
      obtain ⟨first, rest, rfl⟩ := List.exists_cons_of_ne_nil hne
      dsimp only
      split
      · exact ⟨_, rfl⟩
      · split
        · exact ⟨_, rfl⟩
        · exact ⟨_, rfl⟩
    obtain ⟨arcs, harcs⟩ := hdecodes
    exact ⟨arcs, decodeOidArcs_eq_ok.mp harcs⟩
  · rintro ⟨arcs, hvalid, rfl⟩
    match arcs, hvalid with
    | first :: second :: rest, ⟨_, _, hone, hrest⟩ =>
      exact ⟨_, List.cons_ne_nil _ _, List.forall_mem_cons.mpr ⟨hone, hrest⟩, rfl⟩

/-- Different arcs are written differently. -/
theorem dotted_injective {arcs arcs' : List ℕ} (h : dotted arcs = dotted arcs') : arcs = arcs' := by
  have hletters : ∀ l : List ℕ, (dotted l).toList = ['.'].intercalate (l.map (Nat.toDigits 10)) := by
    intro l
    rw [dotted, String.toList_intercalate, List.map_map, String.toList_ofList]
    exact congrArg _ (List.map_congr_left fun n _ => Nat.toList_repr)
  have hdot : ∀ l : List ℕ, ∀ part ∈ l.map (Nat.toDigits 10), '.' ∉ part := by
    intro l part hpart hmem
    obtain ⟨n, -, rfl⟩ := List.mem_map.mp hpart
    exact absurd (Nat.isDigit_of_mem_toDigits (by decide) (by decide) hmem) (by decide)
  have hempty : ∀ n l, dotted (n :: l) ≠ dotted [] := by
    intro n l heq
    have hlist := congrArg String.toList heq
    rw [hletters, hletters, List.map_cons] at hlist
    have hne : Nat.toDigits 10 n ≠ [] := Nat.toDigits_ne_nil
    have hhead : (['.'].intercalate (Nat.toDigits 10 n :: l.map (Nat.toDigits 10))).head? =
        (Nat.toDigits 10 n).head? := RustStr.head?_intercalate hne
    obtain ⟨digit, digits, hn⟩ := List.exists_cons_of_ne_nil hne
    rw [hlist, hn] at hhead
    exact nomatch hhead
  have hsplit : ∀ n l, RustStr.split '.' (['.'].intercalate ((n :: l).map (Nat.toDigits 10))) =
      (n :: l).map (Nat.toDigits 10) :=
    fun n l => RustStr.split_intercalate (List.cons_ne_nil _ _) (hdot (n :: l))
  cases arcs with
  | nil =>
    cases arcs' with
    | nil => rfl
    | cons n l => exact absurd h.symm (hempty n l)
  | cons n l =>
    cases arcs' with
    | nil => exact absurd h (hempty n l)
    | cons n' l' =>
      have hlist := congrArg String.toList h
      rw [hletters, hletters] at hlist
      have hparts := congrArg (RustStr.split '.') hlist
      rw [hsplit, hsplit] at hparts
      apply List.map_injective_iff.mpr _ hparts
      intro a b hab
      rw [← Nat.ofDigitChars_toDigits (b := 10) (n := a) (by decide) (by decide), hab,
        Nat.ofDigitChars_toDigits (by decide) (by decide)]

/-! ## Identities -/

/-- The arcs behind the prefix of Artifact Signing by which a kind is known. -/
def ArtifactSigningCertificateKind.arcs : ArtifactSigningCertificateKind → List ℕ
  | publicTrust => []
  | publicTrustTest => [1, 2]
  | privateTrust => [1, 3, 1]
  | privateTrustCiPolicy => [1, 4, 1]

/-- The kind and publisher that the arcs of an object identifier name, if they are an identity. -/
def identityArcs (arcs : List ℕ) : Option (ArtifactSigningCertificateKind × List ℕ) :=
  if artifactSigningEkuArcs.isPrefixOf arcs then
    classifyIdentitySuffix (arcs.drop artifactSigningEkuArcs.length)
  else none

/-- The identity as it is found. -/
def identityOf (arcs : List ℕ) : Option ArtifactSigningIdentity :=
  (identityArcs arcs).map fun (kind, id) => ⟨kind, dotted id, dotted arcs, false, false⟩

/-- What the loop has found in these object identifiers. -/
def scanOf (seen : List (List ℕ)) : IdentityScan where
  identity := seen.findSome? identityOf
  hasPublicTrustMarker := decide (artifactSigningEkuArcs ++ [1, 0] ∈ seen)
  hasCodeSigningEku := decide (codeSigningEkuArcs ∈ seen)

/-- At most one of the object identifiers is an identity. -/
def OneIdentity (seen : List (List ℕ)) : Prop :=
  ∀ arcs ∈ seen, ∀ arcs' ∈ seen, (identityOf arcs).isSome → (identityOf arcs').isSome → arcs = arcs'

/-- An identity has the prefix of its kind, and something behind it. -/
theorem classifyIdentitySuffix_eq_some {rest id : List ℕ} {kind : ArtifactSigningCertificateKind}
    (h : classifyIdentitySuffix rest = some (kind, id)) : rest = kind.arcs ++ id ∧ id ≠ [] := by
  unfold classifyIdentitySuffix at h
  rw [Option.filter_eq_some_iff] at h
  obtain ⟨hfound, hne⟩ := h
  refine ⟨?_, by simpa using hne⟩
  split at hfound
  · cases hfound
    rfl
  · cases hfound
    rfl
  · cases hfound
    rfl
  · cases hfound
  · cases hfound
    rfl

theorem identityArcs_eq_some {arcs id : List ℕ} {kind : ArtifactSigningCertificateKind}
    (h : identityArcs arcs = some (kind, id)) :
    arcs = artifactSigningEkuArcs ++ (kind.arcs ++ id) ∧ id ≠ [] := by
  unfold identityArcs at h
  by_cases hstart : artifactSigningEkuArcs.isPrefixOf arcs = true
  · rw [if_pos hstart] at h
    obtain ⟨tail, rfl⟩ := List.isPrefixOf_iff_prefix.mp hstart
    rw [List.drop_left] at h
    obtain ⟨htail, hne⟩ := classifyIdentitySuffix_eq_some h
    exact ⟨by rw [htail], hne⟩
  · rw [if_neg hstart] at h
    cases h

theorem identityOf_eq_some {arcs : List ℕ} {found : ArtifactSigningIdentity}
    (h : identityOf arcs = some found) : ∃ id, id ≠ [] ∧
      arcs = artifactSigningEkuArcs ++ (found.kind.arcs ++ id) ∧
      found = ⟨found.kind, dotted id, dotted arcs, false, false⟩ := by
  obtain ⟨⟨kind, id⟩, harcs, rfl⟩ := Option.map_eq_some_iff.mp h
  obtain ⟨heq, hne⟩ := identityArcs_eq_some harcs
  exact ⟨id, hne, heq, rfl⟩

/-! ## The loops -/

/-- The state behind one more object identifier. -/
theorem scanOf_append (seen : List (List ℕ)) (arcs : List ℕ) :
    scanOf (seen ++ [arcs]) =
      { identity := (scanOf seen).identity.or (identityOf arcs)
        hasPublicTrustMarker :=
          (scanOf seen).hasPublicTrustMarker || decide (artifactSigningEkuArcs ++ [1, 0] = arcs)
        hasCodeSigningEku :=
          (scanOf seen).hasCodeSigningEku || decide (codeSigningEkuArcs = arcs) } := by
  unfold scanOf
  simp only [List.findSome?_append, List.findSome?_singleton, List.mem_append, List.mem_singleton,
    Bool.decide_or]

/-- One more object identifier that is no identity. -/
theorem oneIdentity_append_of_none {seen : List (List ℕ)} {arcs : List ℕ}
    (h : identityOf arcs = none) : OneIdentity (seen ++ [arcs]) ↔ OneIdentity seen := by
  have hmem : ∀ a, a ∈ seen ++ [arcs] → (identityOf a).isSome → a ∈ seen := by
    intro a ha hsome
    rcases List.mem_append.mp ha with ha | ha
    · exact ha
    · rw [List.mem_singleton.mp ha, h] at hsome
      exact absurd hsome Bool.false_ne_true
  constructor
  · intro hone a ha b hb
    exact hone a (List.mem_append_left _ ha) b (List.mem_append_left _ hb)
  · intro hone a ha b hb hsome hsome'
    exact hone a (hmem a ha hsome) b (hmem b hb hsome') hsome hsome'

/-- Behind the identity of one of them, the same object identifier changes nothing. -/
theorem oneIdentity_append_of_mem {seen : List (List ℕ)} {arcs : List ℕ} (hone : OneIdentity seen)
    (h : arcs ∈ seen) : OneIdentity (seen ++ [arcs]) := by
  have hmem : ∀ a, a ∈ seen ++ [arcs] → a ∈ seen := by
    intro a ha
    rcases List.mem_append.mp ha with ha | ha
    · exact ha
    · rwa [List.mem_singleton.mp ha]
  intro a ha b hb
  exact hone a (hmem a ha) b (hmem b hb)

theorem oneIdentity_append_of_first {seen : List (List ℕ)} {arcs : List ℕ}
    (h : ∀ a ∈ seen, identityOf a = none) : OneIdentity (seen ++ [arcs]) := by
  have hlast : ∀ a, a ∈ seen ++ [arcs] → (identityOf a).isSome → a = arcs := by
    intro a ha hsome
    rcases List.mem_append.mp ha with ha | ha
    · rw [h a ha] at hsome
      exact absurd hsome Bool.false_ne_true
    · exact List.mem_singleton.mp ha
  intro a ha b hb hsome hsome'
  rw [hlast a ha hsome, hlast b hb hsome']

/-- An object identifier is taken exactly if it is no second identity. -/
theorem scanArcs_cons {seen : List (List ℕ)} {arcs : List ℕ} {others : List (List ℕ)}
    {scan : IdentityScan} (hone : OneIdentity seen) :
    scanArcs (arcs :: others) (scanOf seen) = .ok scan ↔
      OneIdentity (seen ++ [arcs]) ∧ scanArcs others (scanOf (seen ++ [arcs])) = .ok scan := by
  have hnone : ∀ next, identityOf arcs = none → scanOf (seen ++ [arcs]) = next →
      (scanArcs others next = .ok scan ↔ OneIdentity (seen ++ [arcs]) ∧
        scanArcs others (scanOf (seen ++ [arcs])) = .ok scan) := by
    intro next hidentity hnext
    rw [hnext, oneIdentity_append_of_none hidentity]
    exact ⟨fun h => ⟨hone, h⟩, fun h => h.2⟩
  rw [scanArcs]
  by_cases hcode : arcs = codeSigningEkuArcs
  · rw [if_pos hcode]
    apply hnone
    · rw [hcode]
      rfl
    · rw [scanOf_append, hcode]
      simp [show identityOf codeSigningEkuArcs = none from rfl,
        show artifactSigningEkuArcs ++ [1, 0] ≠ codeSigningEkuArcs by decide]
  rw [if_neg hcode]
  by_cases hstart : artifactSigningEkuArcs.isPrefixOf arcs = true
  · rw [if_pos hstart]
    obtain ⟨rest, rfl⟩ := List.isPrefixOf_iff_prefix.mp hstart
    have hidentity : identityOf (artifactSigningEkuArcs ++ rest) =
        (classifyIdentitySuffix rest).map fun (kind, id) =>
          ⟨kind, dotted id, dotted (artifactSigningEkuArcs ++ rest), false, false⟩ := by
      rw [identityOf, identityArcs, if_pos hstart, List.drop_left]
    rw [List.drop_left]
    dsimp only
    by_cases hmarker : rest = [1, 0]
    · rw [if_pos hmarker]
      apply hnone
      · rw [hmarker]
        rfl
      · rw [scanOf_append, hidentity, hmarker]
        simp [show classifyIdentitySuffix [1, 0] = none from rfl,
          show codeSigningEkuArcs ≠ artifactSigningEkuArcs ++ [1, 0] by decide]
    rw [if_neg hmarker]
    have hflags : scanOf (seen ++ [artifactSigningEkuArcs ++ rest]) =
        { scanOf seen with
          identity := (scanOf seen).identity.or (identityOf (artifactSigningEkuArcs ++ rest)) } := by
      rw [scanOf_append, decide_eq_false (fun h => hmarker (List.append_cancel_left h).symm),
        decide_eq_false (Ne.symm hcode), Bool.or_false, Bool.or_false]
    cases hclass : classifyIdentitySuffix rest with
    | none =>
      rw [hclass, Option.map_none] at hidentity
      apply hnone _ hidentity
      rw [hflags, hidentity, Option.or_none]
    | some classified =>
      obtain ⟨kind, id⟩ := classified
      rw [hclass, Option.map_some] at hidentity
      dsimp only
      cases hprev : (scanOf seen).identity with
      | none =>
        have hfirst : ∀ a ∈ seen, identityOf a = none := List.findSome?_eq_none_iff.mp hprev
        dsimp only
        rw [hflags, hprev, hidentity, Option.none_or]
        exact ⟨fun h => ⟨oneIdentity_append_of_first hfirst, h⟩, fun h => h.2⟩
      | some prev =>
        obtain ⟨a, ha, hfound⟩ := List.exists_of_findSome?_eq_some hprev
        obtain ⟨_, -, -, hrecord⟩ := identityOf_eq_some hfound
        have hprevEku : prev.identityEku = dotted a := by rw [hrecord]
        dsimp only
        by_cases hsame : dotted a = dotted (artifactSigningEkuArcs ++ rest)
        · have hagain : a = artifactSigningEkuArcs ++ rest := dotted_injective hsame
          rw [if_neg (not_not.mpr (hprevEku.trans hsame)), hflags, hprev, Option.some_or, ← hprev]
          exact ⟨fun h => ⟨oneIdentity_append_of_mem hone (hagain ▸ ha), h⟩, fun h => h.2⟩
        · rw [if_pos (fun heq => hsame (hprevEku.symm.trans heq))]
          constructor
          · exact fun h => absurd h Outcome.bail_ne_ok
          · intro h
            have hequal := h.1 a (List.mem_append_left _ ha) _
              (List.mem_append_right _ List.mem_cons_self) (by rw [hfound]; rfl)
              (by rw [hidentity]; rfl)
            exact absurd (congrArg dotted hequal) hsame
  · rw [if_neg hstart]
    apply hnone
    · rw [identityOf, identityArcs, if_neg hstart, Option.map_none]
    · have hmarker : artifactSigningEkuArcs ++ [1, 0] ≠ arcs := by
        rintro rfl
        exact hstart (List.isPrefixOf_iff_prefix.mpr (List.prefix_append _ _))
      rw [scanOf_append, decide_eq_false hmarker, decide_eq_false (Ne.symm hcode), identityOf,
        identityArcs, if_neg hstart, Option.map_none, Option.or_none, Bool.or_false, Bool.or_false]

/-- The loop over the object identifiers of an extension. -/
theorem scanArcs_eq_ok {seen others : List (List ℕ)} {scan : IdentityScan}
    (hone : OneIdentity seen) :
    scanArcs others (scanOf seen) = .ok scan ↔
      OneIdentity (seen ++ others) ∧ scan = scanOf (seen ++ others) := by
  induction others generalizing seen with
  | nil =>
    rw [scanArcs, List.append_nil, Except.ok.injEq]
    exact ⟨fun h => ⟨hone, h.symm⟩, fun h => h.2.symm⟩
  | cons arcs others ih =>
    rw [scanArcs_cons hone]
    have hassoc : seen ++ arcs :: others = seen ++ [arcs] ++ others := by
      rw [List.append_assoc, List.singleton_append]
    constructor
    · rintro ⟨hnext, h⟩
      rw [hassoc]
      exact (ih hnext).mp h
    · rintro ⟨hall, h⟩
      have hnext : OneIdentity (seen ++ [arcs]) := by
        rw [hassoc] at hall
        intro a ha b hb
        exact hall a (List.mem_append_left _ ha) b (List.mem_append_left _ hb)
      exact ⟨hnext, (ih hnext).mpr ⟨hassoc ▸ hall, hassoc ▸ h⟩⟩

/-! ## Extensions -/

/-- The bytes are elements that the reader takes for object identifiers with these contents. -/
inductive OidElements (env : Environment) : List UInt8 → List (List UInt8) → Prop
  | nil : OidElements env [] []
  | cons {bytes after rest oid : List UInt8} {len : ℕ} {oids : List (List UInt8)}
    (header : env.cms.header bytes = .ok (0x06, len, after))
    (body : readSlice len after = .ok (oid, rest)) (tail : OidElements env rest oids) :
    OidElements env bytes (oid :: oids)

/-- The extension is one SEQUENCE of these object identifiers. -/
def ExtensionOids (env : Environment) (der : List UInt8) (oids : List (List UInt8)) : Prop :=
  env.cms.sliceReader der = .ok () ∧ ∃ len after body,
    env.cms.header der = .ok (0x30, len, after) ∧ readSlice len after = .ok (body, []) ∧
      OidElements env body oids

/-- The object identifiers of all extended key usage extensions among these. -/
inductive ExtensionsOids (env : Environment) : List Extension → List (List UInt8) → Prop
  | nil : ExtensionsOids env [] []
  | eku {ext : Extension} {rest : List Extension} {oids others : List (List UInt8)}
    (id : ext.extnId = ekuExtensionOid) (head : ExtensionOids env ext.extnValue oids)
    (tail : ExtensionsOids env rest others) : ExtensionsOids env (ext :: rest) (oids ++ others)
  | other {ext : Extension} {rest : List Extension} {others : List (List UInt8)}
    (id : ext.extnId ≠ ekuExtensionOid) (tail : ExtensionsOids env rest others) :
    ExtensionsOids env (ext :: rest) others

/-- The object identifiers in the extended key usage of a certificate. -/
def CertificateOids (env : Environment) (cert : Certificate) (oids : List (List UInt8)) : Prop :=
  ExtensionsOids env (cert.extensions.getD []) oids

variable {env : Environment}

theorem readSlice_eq_ok {len : ℕ} {bytes value rest : List UInt8} :
    readSlice len bytes = .ok (value, rest) ↔
      len ≤ bytes.length ∧ value = bytes.take len ∧ rest = bytes.drop len := by
  unfold readSlice
  by_cases hle : len ≤ bytes.length
  · rw [if_pos hle, Except.ok.injEq, Prod.mk.injEq]
    exact ⟨fun h => ⟨hle, h.1.symm, h.2.symm⟩, fun h => ⟨h.2.1.symm, h.2.2.symm⟩⟩
  · rw [if_neg hle]
    exact ⟨fun h => absurd h Outcome.bail_ne_ok, fun h => absurd h.1 hle⟩

/-- An element has at least one byte. -/
theorem length_of_header {bytes after value rest : List UInt8} {tag : UInt8} {len : ℕ}
    (hheader : env.cms.header bytes = .ok (tag, len, after))
    (hbody : readSlice len after = .ok (value, rest)) : rest.length < bytes.length := by
  obtain ⟨hle, -, rfl⟩ := readSlice_eq_ok.mp hbody
  obtain ⟨element, hread, -, -⟩ := env.cms.header_reads hheader hle
  obtain ⟨hbytes, hisTlv⟩ := Der.readTlv_eq_some.mp hread
  have hpos : 0 < element.raw.length := by
    rw [List.length_pos_iff]
    intro hnil
    rw [Der.IsTlv, hnil] at hisTlv
    cases hisTlv
  have hlength := congrArg List.length hbytes
  rw [List.length_append] at hlength
  omega

theorem oidElements_nil {oids : List (List UInt8)} (h : OidElements env [] oids) : oids = [] := by
  cases h with
  | nil => rfl
  | cons header body _ => exact absurd (length_of_header header body) (Nat.not_lt_zero _)

/-- The loop over the elements of an extension; the number of its bytes is enough. -/
theorem ekuArcsFrom_eq_ok {fuel : ℕ} {body : List UInt8} (hfuel : body.length ≤ fuel)
    {arcs : List (List ℕ)} :
    ekuArcsFrom env fuel body = .ok arcs ↔
      OidElements env body (arcs.map encodeOidArcs) ∧ ∀ a ∈ arcs, ValidArcs a := by
  induction fuel generalizing body arcs with
  | zero =>
    obtain rfl : body = [] := List.eq_nil_of_length_eq_zero (Nat.le_zero.mp hfuel)
    rw [ekuArcsFrom]
    constructor
    · intro h
      obtain rfl := Except.ok.inj h
      exact ⟨.nil, fun a ha => absurd ha List.not_mem_nil⟩
    · intro h
      rw [List.map_eq_nil_iff.mp (oidElements_nil h.1)]
  | succ fuel ih =>
    cases body with
    | nil =>
      rw [ekuArcsFrom]
      constructor
      · intro h
        obtain rfl := Except.ok.inj h
        exact ⟨.nil, fun a ha => absurd ha List.not_mem_nil⟩
      · intro h
        rw [List.map_eq_nil_iff.mp (oidElements_nil h.1)]
    | cons byte rest =>
      rw [ekuArcsFrom]
      simp only [Outcome.bind_eq_ok, Outcome.mapErr_eq_ok, Outcome.guardThat_eq_ok, Prod.exists,
        Outcome.pure_eq_ok, Except.ok.injEq]
      constructor
      · rintro ⟨_, len, after, hheader, _, rfl, value, left, hslice, a, ha, others, hothers, rfl⟩
        have hshort := length_of_header hheader hslice
        obtain ⟨hvalid, rfl⟩ := decodeOidArcs_eq_ok.mp ha
        obtain ⟨htail, hall⟩ := (ih (by omega)).mp hothers
        exact ⟨.cons hheader hslice htail, List.forall_mem_cons.mpr ⟨hvalid, hall⟩⟩
      · rintro ⟨helements, hall⟩
        cases arcs with
        | nil => cases helements
        | cons a others =>
          obtain ⟨hvalid, hothers⟩ := List.forall_mem_cons.mp hall
          rw [List.map_cons] at helements
          cases helements with
          | @cons _ after left _ len _ hheader hslice htail =>
            have hshort := length_of_header hheader hslice
            exact ⟨_, len, after, hheader, (), rfl, _, left, hslice, a,
              decodeOidArcs_eq_ok.mpr ⟨hvalid, rfl⟩, others,
              (ih (by omega)).mpr ⟨htail, hothers⟩, rfl⟩

theorem decodeEkuArcs_eq_ok {der : List UInt8} {arcs : List (List ℕ)} :
    decodeEkuArcs env der = .ok arcs ↔
      ExtensionOids env der (arcs.map encodeOidArcs) ∧ ∀ a ∈ arcs, ValidArcs a := by
  unfold decodeEkuArcs ExtensionOids
  simp only [Outcome.bind_eq_ok, Outcome.mapErr_eq_ok, Outcome.guardThat_eq_ok, Prod.exists]
  constructor
  · rintro ⟨_, hreader, _, len, after, hheader, _, rfl, body, _, hslice, _, rfl, h⟩
    obtain ⟨helements, hall⟩ := (ekuArcsFrom_eq_ok (Nat.le_refl _)).mp h
    exact ⟨⟨hreader, len, after, body, hheader, hslice, helements⟩, hall⟩
  · rintro ⟨⟨hreader, len, after, body, hheader, hslice, helements⟩, hall⟩
    exact ⟨(), hreader, _, len, after, hheader, (), rfl, body, [], hslice, (), rfl,
      (ekuArcsFrom_eq_ok (Nat.le_refl _)).mpr ⟨helements, hall⟩⟩

/-- The loop over the extensions. -/
theorem scanExtensions_eq_ok {seen : List (List ℕ)} {exts : List Extension} {scan : IdentityScan}
    (hone : OneIdentity seen) :
    scanExtensions env exts (scanOf seen) = .ok scan ↔
      ∃ arcs, ExtensionsOids env exts (arcs.map encodeOidArcs) ∧ (∀ a ∈ arcs, ValidArcs a) ∧
        OneIdentity (seen ++ arcs) ∧ scan = scanOf (seen ++ arcs) := by
  induction exts generalizing seen with
  | nil =>
    rw [scanExtensions, Except.ok.injEq]
    constructor
    · rintro rfl
      refine ⟨[], .nil, fun a ha => absurd ha List.not_mem_nil, ?_, ?_⟩
      · rwa [List.append_nil]
      · rw [List.append_nil]
    · rintro ⟨arcs, helements, -, -, rfl⟩
      cases arcs with
      | nil => rw [List.append_nil]
      | cons a arcs => cases helements
  | cons ext exts ih =>
    rw [scanExtensions]
    by_cases heku : ext.extnId = ekuExtensionOid
    · rw [if_pos heku]
      simp only [Outcome.bind_eq_ok]
      constructor
      · rintro ⟨arcs, harcs, next, hnext, h⟩
        obtain ⟨hoids, hvalid⟩ := decodeEkuArcs_eq_ok.mp harcs
        obtain ⟨hone', rfl⟩ := (scanArcs_eq_ok hone).mp hnext
        obtain ⟨others, helements, hall, hone'', rfl⟩ := (ih hone').mp h
        refine ⟨arcs ++ others, ?_, ?_, ?_, ?_⟩
        · rw [List.map_append]
          exact .eku heku hoids helements
        · intro a ha
          rcases List.mem_append.mp ha with ha | ha
          · exact hvalid a ha
          · exact hall a ha
        · rwa [← List.append_assoc]
        · rw [← List.append_assoc]
      · rintro ⟨arcs, helements, hall, hone', rfl⟩
        generalize hoids : arcs.map encodeOidArcs = oids at helements
        cases helements with
        | other hid _ => exact absurd heku hid
        | @eku _ _ front back hid hfront hback =>
          obtain ⟨first, second, rfl, rfl, rfl⟩ := List.map_eq_append_iff.mp hoids
          have hone'' : OneIdentity (seen ++ first) := by
            rw [← List.append_assoc] at hone'
            intro a ha b hb
            exact hone' a (List.mem_append_left _ ha) b (List.mem_append_left _ hb)
          refine ⟨first, decodeEkuArcs_eq_ok.mpr
            ⟨hfront, fun a ha => hall a (List.mem_append_left _ ha)⟩, scanOf (seen ++ first),
            (scanArcs_eq_ok hone).mpr ⟨hone'', rfl⟩, (ih hone'').mpr ⟨second, hback,
              fun a ha => hall a (List.mem_append_right _ ha), ?_, ?_⟩⟩
          · rwa [List.append_assoc]
          · rw [List.append_assoc]
    · rw [if_neg heku, ih hone]
      constructor
      · rintro ⟨arcs, helements, h⟩
        exact ⟨arcs, .other heku helements, h⟩
      · rintro ⟨arcs, helements, h⟩
        generalize hoids : arcs.map encodeOidArcs = oids at helements
        cases helements with
        | eku hid _ _ => exact absurd hid heku
        | other _ htail => exact ⟨arcs, hoids ▸ htail, h⟩

/-! ## The object identifiers of a certificate -/

theorem OidElements.eq {body : List UInt8} {oids oids' : List (List UInt8)}
    (h : OidElements env body oids) (h' : OidElements env body oids') : oids = oids' := by
  induction h generalizing oids' with
  | nil => exact (oidElements_nil h').symm
  | cons header slice _ ih =>
    cases h' with
    | nil => exact absurd (length_of_header header slice) (Nat.not_lt_zero _)
    | cons header' slice' tail' =>
      rw [header, Except.ok.injEq, Prod.mk.injEq, Prod.mk.injEq] at header'
      obtain ⟨-, rfl, rfl⟩ := header'
      rw [slice, Except.ok.injEq, Prod.mk.injEq] at slice'
      obtain ⟨rfl, rfl⟩ := slice'
      rw [ih tail']

theorem ExtensionOids.eq {der : List UInt8} {oids oids' : List (List UInt8)}
    (h : ExtensionOids env der oids) (h' : ExtensionOids env der oids') : oids = oids' := by
  obtain ⟨-, len, after, body, hheader, hslice, helements⟩ := h
  obtain ⟨-, len', after', body', hheader', hslice', helements'⟩ := h'
  rw [hheader, Except.ok.injEq, Prod.mk.injEq, Prod.mk.injEq] at hheader'
  obtain ⟨-, rfl, rfl⟩ := hheader'
  rw [hslice, Except.ok.injEq, Prod.mk.injEq] at hslice'
  obtain ⟨rfl, -⟩ := hslice'
  exact helements.eq helements'

/-- A certificate has one list of object identifiers. -/
theorem ExtensionsOids.eq {exts : List Extension} {oids oids' : List (List UInt8)}
    (h : ExtensionsOids env exts oids) (h' : ExtensionsOids env exts oids') : oids = oids' := by
  induction h generalizing oids' with
  | nil => cases h'; rfl
  | eku id head _ ih =>
    cases h' with
    | eku _ head' tail' => rw [head.eq head', ih tail']
    | other id' _ => exact absurd id id'
  | other id _ ih =>
    cases h' with
    | eku id' _ _ => exact absurd id' id
    | other _ tail' => exact ih tail'

/-- Canonical object identifiers are the encodings of their arcs. -/
theorem exists_arcs_of_canonical {oids : List (List UInt8)} (h : ∀ oid ∈ oids, CanonicalOid oid) :
    ∃ arcs : List (List ℕ), oids = arcs.map encodeOidArcs ∧ ∀ a ∈ arcs, ValidArcs a := by
  induction oids with
  | nil => exact ⟨[], rfl, fun a ha => absurd ha List.not_mem_nil⟩
  | cons oid oids ih =>
    obtain ⟨hoid, hoids⟩ := List.forall_mem_cons.mp h
    obtain ⟨a, hvalid, rfl⟩ := canonicalOid_iff.mp hoid
    obtain ⟨arcs, rfl, hall⟩ := ih hoids
    exact ⟨a :: arcs, rfl, List.forall_mem_cons.mpr ⟨hvalid, hall⟩⟩

/-- Valid arcs are among others exactly if their encodings are. -/
theorem encodeOidArcs_mem {arcs : List (List ℕ)} (hall : ∀ a ∈ arcs, ValidArcs a) {a : List ℕ}
    (hvalid : ValidArcs a) : encodeOidArcs a ∈ arcs.map encodeOidArcs ↔ a ∈ arcs := by
  constructor
  · intro h
    obtain ⟨b, hb, hequal⟩ := List.mem_map.mp h
    exact encodeOidArcs_injective (hall b hb) hvalid hequal ▸ hb
  · exact fun h => List.mem_map_of_mem h

/-- What is returned for a certificate with these object identifiers. -/
def identityFound (arcs : List (List ℕ)) : Option ArtifactSigningIdentity :=
  (scanOf arcs).identity.map fun id =>
    { id with
      hasPublicTrustMarker := (scanOf arcs).hasPublicTrustMarker
      hasCodeSigningEku := (scanOf arcs).hasCodeSigningEku }

theorem artifactSigningIdentityFromCertificate_eq_ok {cert : Certificate}
    {found : Option ArtifactSigningIdentity} :
    artifactSigningIdentityFromCertificate env cert = .ok found ↔
      ∃ arcs, CertificateOids env cert (arcs.map encodeOidArcs) ∧ (∀ a ∈ arcs, ValidArcs a) ∧
        OneIdentity arcs ∧ found = identityFound arcs := by
  have hstart : OneIdentity [] := fun a ha => absurd ha List.not_mem_nil
  unfold artifactSigningIdentityFromCertificate CertificateOids
  cases cert.extensions with
  | none =>
    rw [Option.getD_none, Except.ok.injEq]
    constructor
    · rintro rfl
      exact ⟨[], .nil, fun a ha => absurd ha List.not_mem_nil, hstart, rfl⟩
    · rintro ⟨arcs, hoids, -, -, rfl⟩
      cases arcs with
      | nil => rfl
      | cons a arcs => cases hoids
  | some exts =>
    dsimp only
    rw [Option.getD_some, Outcome.bind_eq_ok]
    constructor
    · rintro ⟨scan, hscan, h⟩
      obtain ⟨arcs, hoids, hall, hone, rfl⟩ := (scanExtensions_eq_ok hstart).mp hscan
      exact ⟨arcs, hoids, hall, hone, (Except.ok.inj h).symm⟩
    · rintro ⟨arcs, hoids, hall, hone, rfl⟩
      exact ⟨scanOf arcs, (scanExtensions_eq_ok hstart).mpr ⟨arcs, hoids, hall, hone, rfl⟩, rfl⟩

/-- The order and the number of the object identifiers do not matter. -/
theorem identityFound_congr {arcs arcs' : List (List ℕ)} (hone : OneIdentity arcs)
    (hsame : ∀ a, a ∈ arcs ↔ a ∈ arcs') : identityFound arcs = identityFound arcs' := by
  have hfound : arcs.findSome? identityOf = arcs'.findSome? identityOf := by
    cases hfirst : arcs.findSome? identityOf with
    | none =>
      rw [List.findSome?_eq_none_iff] at hfirst
      symm
      rw [List.findSome?_eq_none_iff]
      exact fun a ha => hfirst a ((hsame a).mpr ha)
    | some found =>
      obtain ⟨a, ha, hidentity⟩ := List.exists_of_findSome?_eq_some hfirst
      cases hsecond : arcs'.findSome? identityOf with
      | none =>
        have hnone := List.findSome?_eq_none_iff.mp hsecond a ((hsame a).mp ha)
        rw [hidentity] at hnone
        exact nomatch hnone
      | some found' =>
        obtain ⟨b, hb, hidentity'⟩ := List.exists_of_findSome?_eq_some hsecond
        have hequal := hone a ha b ((hsame b).mpr hb) (by rw [hidentity]; rfl)
          (by rw [hidentity']; rfl)
        rw [← hidentity, ← hidentity', hequal]
  unfold identityFound scanOf
  simp only [hfound, hsame]

/-- The same object identifiers, the same result. -/
theorem found_of_same_oids {cert cert' : Certificate} {oids oids' : List (List UInt8)}
    (hoids : CertificateOids env cert oids) (hoids' : CertificateOids env cert' oids')
    (hsame : ∀ oid, oid ∈ oids ↔ oid ∈ oids') {found : Option ArtifactSigningIdentity}
    (h : artifactSigningIdentityFromCertificate env cert = .ok found) :
    artifactSigningIdentityFromCertificate env cert' = .ok found := by
  obtain ⟨arcs, hlist, hall, hone, rfl⟩ := artifactSigningIdentityFromCertificate_eq_ok.mp h
  obtain rfl := ExtensionsOids.eq hlist hoids
  have hcanonical : ∀ oid ∈ oids', CanonicalOid oid := by
    intro oid hoid
    obtain ⟨a, ha, rfl⟩ := List.mem_map.mp ((hsame oid).mpr hoid)
    exact canonicalOid_iff.mpr ⟨a, hall a ha, rfl⟩
  obtain ⟨arcs', rfl, hall'⟩ := exists_arcs_of_canonical hcanonical
  have hmem : ∀ a, a ∈ arcs ↔ a ∈ arcs' := by
    intro a
    constructor
    · intro ha
      exact (encodeOidArcs_mem hall' (hall a ha)).mp
        ((hsame _).mp (List.mem_map_of_mem ha))
    · intro ha
      exact (encodeOidArcs_mem hall (hall' a ha)).mp
        ((hsame _).mpr (List.mem_map_of_mem ha))
  refine artifactSigningIdentityFromCertificate_eq_ok.mpr ⟨arcs', hoids', hall', ?_, ?_⟩
  · intro a ha b hb
    exact hone a ((hmem a).mpr ha) b ((hmem b).mpr hb)
  · exact identityFound_congr hone hmem

/-- The object identifier is an identity of Artifact Signing. -/
def IdentityOid (oid : List UInt8) : Prop :=
  ∃ arcs, ValidArcs arcs ∧ oid = encodeOidArcs arcs ∧ (identityOf arcs).isSome

/-- The certificate has this identity. -/
def HasIdentityOid (env : Environment) (cert : Certificate) (oid : List UInt8) : Prop :=
  ∃ oids, CertificateOids env cert oids ∧ oid ∈ oids ∧ IdentityOid oid

/-- An identity that is returned is the one of the certificate, and there is no other. -/
theorem exists_identity_arcs {cert : Certificate} {identity : ArtifactSigningIdentity}
    (h : artifactSigningIdentityFromCertificate env cert = .ok (some identity)) :
    ∃ arcs, ValidArcs arcs ∧ HasIdentityOid env cert (encodeOidArcs arcs) ∧
      identityOf arcs =
        some ⟨identity.kind, identity.publisherId, identity.identityEku, false, false⟩ ∧
      ∀ oid, HasIdentityOid env cert oid → oid = encodeOidArcs arcs := by
  obtain ⟨list, hoids, hall, hone, hfound⟩ := artifactSigningIdentityFromCertificate_eq_ok.mp h
  obtain ⟨found, hfirst, hidentity⟩ := Option.map_eq_some_iff.mp hfound.symm
  obtain ⟨arcs, hmem, hof⟩ := List.exists_of_findSome?_eq_some hfirst
  obtain ⟨_, -, -, hrecord⟩ := identityOf_eq_some hof
  refine ⟨arcs, hall arcs hmem, ⟨_, hoids, List.mem_map_of_mem hmem, arcs, hall arcs hmem, rfl,
    by rw [hof]; rfl⟩, ?_, ?_⟩
  · rw [hof, ← hidentity]
    dsimp only
    rw [hrecord]
  · rintro oid ⟨oids, hoids', hoid, other, hvalid, rfl, hsome⟩
    obtain rfl := ExtensionsOids.eq hoids hoids'
    have hother := (encodeOidArcs_mem hall hvalid).mp hoid
    rw [hone other hother arcs hmem hsome (by rw [hof]; rfl)]

/-! ## The identity of a certificate -/

/-- Certificates with the same set of object identifiers have the same identity, have none, or are
both refused.  An identity is returned exactly if every extended key usage extension is one SEQUENCE
of canonical object identifiers below 2^64 and exactly one of them is an identity.  Arcs are decoded
from their encoding.  Kind and publisher are the same exactly for the same object identifier, which
has the prefix of its kind. -/
theorem artifact_identity_of_oids (env : Environment) (cert cert' : Certificate) :
    (∀ oids oids', CertificateOids env cert oids → CertificateOids env cert' oids' →
      (∀ oid, oid ∈ oids ↔ oid ∈ oids') → ∀ found,
        artifactSigningIdentityFromCertificate env cert = .ok found ↔
          artifactSigningIdentityFromCertificate env cert' = .ok found) ∧
    ((∃ identity, artifactSigningIdentityFromCertificate env cert = .ok (some identity)) ↔
      ∃ oids, CertificateOids env cert oids ∧ (∀ oid ∈ oids, CanonicalOid oid) ∧
        ∃! oid, oid ∈ oids ∧ IdentityOid oid) ∧
    (∀ arcs, ValidArcs arcs → decodeOidArcs (encodeOidArcs arcs) = .ok arcs) ∧
    (∀ identity identity',
      artifactSigningIdentityFromCertificate env cert = .ok (some identity) →
      artifactSigningIdentityFromCertificate env cert' = .ok (some identity') →
      (identity.kind = identity'.kind ∧ identity.publisherId = identity'.publisherId ↔
        ∃ oid, HasIdentityOid env cert oid ∧ HasIdentityOid env cert' oid)) ∧
    ∀ identity, artifactSigningIdentityFromCertificate env cert = .ok (some identity) →
      ∃ id, HasIdentityOid env cert
          (encodeOidArcs (artifactSigningEkuArcs ++ (identity.kind.arcs ++ id))) ∧
        identity.publisherId = dotted id ∧
        identity.identityEku = dotted (artifactSigningEkuArcs ++ (identity.kind.arcs ++ id)) := by
  refine ⟨?_, ?_, fun arcs hvalid => decodeOidArcs_eq_ok.mpr ⟨hvalid, rfl⟩, ?_, ?_⟩
  · intro oids oids' hoids hoids' hsame found
    exact ⟨found_of_same_oids hoids hoids' hsame,
      found_of_same_oids hoids' hoids fun oid => (hsame oid).symm⟩
  · constructor
    · rintro ⟨identity, h⟩
      obtain ⟨list, hoids, hall, -, -⟩ := artifactSigningIdentityFromCertificate_eq_ok.mp h
      obtain ⟨arcs, -, ⟨oids, hoids', hmem, hidentity⟩, -, honly⟩ := exists_identity_arcs h
      obtain rfl := ExtensionsOids.eq hoids hoids'
      refine ⟨_, hoids, ?_, encodeOidArcs arcs, ⟨hmem, hidentity⟩, ?_⟩
      · intro oid hoid
        obtain ⟨a, ha, rfl⟩ := List.mem_map.mp hoid
        exact canonicalOid_iff.mpr ⟨a, hall a ha, rfl⟩
      · rintro oid ⟨hoid, hidentity'⟩
        exact honly oid ⟨_, hoids, hoid, hidentity'⟩
    · rintro ⟨oids, hoids, hcanonical, oid, ⟨hoid, arcs, hvalid, rfl, hsome⟩, honly⟩
      obtain ⟨list, rfl, hall⟩ := exists_arcs_of_canonical hcanonical
      have hlist : ∀ a ∈ list, (identityOf a).isSome → a = arcs := by
        intro a ha hidentity
        exact encodeOidArcs_injective (hall a ha) hvalid
          (honly _ ⟨List.mem_map_of_mem ha, a, hall a ha, rfl, hidentity⟩)
      have hone : OneIdentity list := by
        intro a ha b hb hidentity hidentity'
        rw [hlist a ha hidentity, hlist b hb hidentity']
      have harcs := (encodeOidArcs_mem hall hvalid).mp hoid
      obtain ⟨found, hfound⟩ := Option.isSome_iff_exists.mp
        (List.findSome?_isSome_iff.mpr ⟨arcs, harcs, hsome⟩)
      have hidentity : ∃ identity, identityFound list = some identity := by
        rw [identityFound, show (scanOf list).identity = some found from hfound]
        exact ⟨_, rfl⟩
      obtain ⟨identity, hidentity⟩ := hidentity
      exact ⟨identity, artifactSigningIdentityFromCertificate_eq_ok.mpr
        ⟨list, hoids, hall, hone, hidentity.symm⟩⟩
  · intro identity identity' h h'
    obtain ⟨arcs, hvalid, hhas, hidentity, honly⟩ := exists_identity_arcs h
    obtain ⟨arcs', hvalid', hhas', hidentity', honly'⟩ := exists_identity_arcs h'
    constructor
    · rintro ⟨hkind, hid⟩
      obtain ⟨id, -, hshape, hrecord⟩ := identityOf_eq_some hidentity
      obtain ⟨id', -, hshape', hrecord'⟩ := identityOf_eq_some hidentity'
      rw [ArtifactSigningIdentity.mk.injEq] at hrecord hrecord'
      have hpublisher : id = id' :=
        dotted_injective (hrecord.2.1.symm.trans (hid.trans hrecord'.2.1))
      have hequal : arcs = arcs' := by
        rw [hshape, hshape', hpublisher]
        exact congrArg (fun kind : ArtifactSigningCertificateKind =>
          artifactSigningEkuArcs ++ (kind.arcs ++ id')) hkind
      exact ⟨encodeOidArcs arcs, hhas, hequal ▸ hhas'⟩
    · rintro ⟨oid, hoid, hoid'⟩
      have hequal : arcs = arcs' := encodeOidArcs_injective hvalid hvalid'
        ((honly oid hoid).symm.trans (honly' oid hoid'))
      rw [← hequal, hidentity, Option.some.injEq, ArtifactSigningIdentity.mk.injEq] at hidentity'
      exact ⟨hidentity'.1, hidentity'.2.1⟩
  · intro identity h
    obtain ⟨arcs, -, hhas, hidentity, -⟩ := exists_identity_arcs h
    obtain ⟨id, -, hshape, hrecord⟩ := identityOf_eq_some hidentity
    rw [ArtifactSigningIdentity.mk.injEq] at hrecord
    dsimp only at hshape
    refine ⟨id, hshape ▸ hhas, hrecord.2.1, hshape ▸ hrecord.2.2.1⟩

/-- A certificate with two identities, in the one order or in the other. -/
def twoIdentities (first second : UInt8) : Certificate :=
  { rootFields.certificate with
    extensions := some [⟨ekuExtensionOid,
      Der.encodeTlv 0x30 (identityEkuDer first ++ identityEkuDer second)⟩] }

/-- The error for two identities names them in the order of the certificate; and the arcs 3.5, which
no object identifier begins with, are written as the arcs 2.45. -/
theorem order_of_identities_reported :
    (∃ cert cert' oids oids',
      CertificateOids publisherEnvironment cert oids ∧
      CertificateOids publisherEnvironment cert' oids' ∧ (∀ oid, oid ∈ oids ↔ oid ∈ oids') ∧
      artifactSigningIdentityFromCertificate publisherEnvironment cert ≠
        artifactSigningIdentityFromCertificate publisherEnvironment cert') ∧
    decodeOidArcs (encodeOidArcs [3, 5]) = .ok [2, 45] := by
  refine ⟨?_, by decide⟩
  have hoids : ∀ first second, CertificateOids publisherEnvironment (twoIdentities first second)
      [(identityEkuDer first).drop 2, (identityEkuDer second).drop 2] := by
    intro first second
    have hbody : OidElements publisherEnvironment (identityEkuDer first ++ identityEkuDer second)
        [(identityEkuDer first).drop 2, (identityEkuDer second).drop 2] :=
      .cons rfl rfl (.cons rfl rfl .nil)
    exact .eku rfl ⟨rfl, 28, identityEkuDer first ++ identityEkuDer second,
      identityEkuDer first ++ identityEkuDer second, rfl, rfl, hbody⟩ .nil
  refine ⟨twoIdentities 7 8, twoIdentities 8 7, _, _, hoids 7 8, hoids 8 7, ?_, by decide⟩
  intro oid
  rw [List.mem_cons, List.mem_singleton, List.mem_cons, List.mem_singleton, or_comm]

end Psign.Trust
