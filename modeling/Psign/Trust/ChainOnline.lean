import Psign.CodeLib.Loop
import Psign.Trust.ChainWalk

/-!
# When the online walk ends

The loop of `issuer_chain_excluding_leaf_online` with its state, over any source of
issuers.  The counter of the loop counts the certificates of the chain.  A fetch that
returns certificates, and not the issuer that is looked for, is followed by another
fetch for the same certificate, and nothing counts these.

A source starves a certificate if from some request on it answers every request for
it so.  `online_chain_ends_iff` says that the walk ends exactly if it does not come to
a certificate that is starved, and how soon: only useless answers are not bounded.
`issuerChainOnlineFrom_eq_run` connects the loop to the
function that trust verification calls.
-/

namespace Psign.Trust

open CodeLib CodeLib.Loop Psign.Sip

/-- What `issuer_candidates_from_aia` answers in an iteration of the loop. -/
abbrev AiaSource := ℕ → Cert → Outcome (List Cert)

/-- The variables of the loop. -/
structure OnlineWalk where
  pool : List Cert
  current : Cert
  out : List Cert
  steps : ℕ
  deriving DecidableEq

section

variable (env : Environment) (source : AiaSource) (anchors : Option AnchorStore)

/-- One iteration of the loop of `issuer_chain_excluding_leaf_online`. -/
def onlineStep (i : ℕ) (walk : OnlineWalk) : OnlineWalk ⊕ Outcome (List Cert) :=
  match walk.pool.find? (·.subjectName = walk.current.issuerName) with
  | some parent =>
    if 32 < walk.steps + 1 then
      .inr (Outcome.bail "certificate chain too long (possible loop)")
    else if isTrusted env.cms.hashes anchors parent then .inr (.ok (walk.out ++ [parent]))
    else if parent.subjectName = parent.issuerName then .inr (.ok (walk.out ++ [parent]))
    else .inl ⟨walk.pool, parent, walk.out ++ [parent], walk.steps + 1⟩
  | none =>
    match source i walk.current with
    | .error e => .inr (.error e)
    | .ok fetched =>
      if fetched.isEmpty then
        .inr (endWithoutIssuer env anchors walk.out walk.current.issuerName)
      else .inl { walk with pool := walk.pool ++ fetched }

/-- The state before the loop. -/
def OnlineWalk.init (leaf : Cert) (pool : List Cert) : OnlineWalk := ⟨pool, leaf, [], 0⟩

/-- `issuer_chain_excluding_leaf_online` within `fuel` iterations. -/
def onlineChain (fuel : ℕ) (leaf : Cert) (pool : List Cert) : Option (Outcome (List Cert)) :=
  if leaf.subjectName = leaf.issuerName then some (.ok [])
  else run (onlineStep env source anchors) fuel 0 (.init leaf pool)

end

/-- From this request on the source answers every request for the certificate with
certificates, and never with one that has the name of its issuer. -/
def Starves (source : AiaSource) (i : ℕ) (cert : Cert) : Prop :=
  ∀ j, i ≤ j → ∃ fetched, source j cert = .ok fetched ∧ fetched ≠ [] ∧
    ∀ other ∈ fetched, other.subjectName ≠ cert.issuerName

/-- The walk looks for an issuer that is not in the pool. -/
def OnlineWalk.Waits (walk : OnlineWalk) : Prop :=
  walk.pool.find? (·.subjectName = walk.current.issuerName) = none

instance (walk : OnlineWalk) : Decidable walk.Waits :=
  inferInstanceAs (Decidable (_ = none))

/-- An iteration was no use: the walk looks for the same issuer still. -/
def useless (walk walk' : OnlineWalk) : Bool := walk.Waits && walk'.Waits

variable {env : Environment} {source : AiaSource} {anchors : Option AnchorStore}

/-! ## Steps of the loop -/

section

variable {i : ℕ} {walk walk' : OnlineWalk}

/-- The loop goes on with the issuer, or with a larger pool. -/
theorem onlineStep_eq_inl (h : onlineStep env source anchors i walk = .inl walk') :
    (∃ parent, walk.pool.find? (·.subjectName = walk.current.issuerName) = some parent ∧
      isTrusted env.cms.hashes anchors parent = false ∧
      parent.subjectName ≠ parent.issuerName ∧ walk.steps < 32 ∧
      walk' = ⟨walk.pool, parent, walk.out ++ [parent], walk.steps + 1⟩) ∨
    (walk.Waits ∧ ∃ fetched, source i walk.current = .ok fetched ∧ fetched ≠ [] ∧
      walk' = { walk with pool := walk.pool ++ fetched }) := by
  unfold onlineStep at h
  cases hfind : walk.pool.find? (·.subjectName = walk.current.issuerName) with
  | some parent =>
    left
    simp only [hfind] at h
    split at h
    · simp at h
    · split at h
      · simp at h
      · rename_i htrusted
        split at h
        · simp at h
        · rename_i hissued
          exact ⟨parent, rfl, by simpa using htrusted, hissued, by omega, (Sum.inl.inj h).symm⟩
  | none =>
    right
    simp only [hfind] at h
    cases hsource : source i walk.current with
    | error e => simp [hsource] at h
    | ok fetched =>
      simp only [hsource] at h
      split at h
      · simp at h
      · rename_i hne
        exact ⟨hfind, fetched, rfl, by simpa using hne, (Sum.inl.inj h).symm⟩

/-- An issuer in the pool ends the loop or is one more certificate of the chain. -/
theorem onlineStep_of_find (env : Environment) (source : AiaSource)
    (anchors : Option AnchorStore) {parent : Cert}
    (hfind : walk.pool.find? (·.subjectName = walk.current.issuerName) = some parent) :
    (∃ result, onlineStep env source anchors i walk = .inr result) ∨
      (walk.steps < 32 ∧ onlineStep env source anchors i walk =
        .inl ⟨walk.pool, parent, walk.out ++ [parent], walk.steps + 1⟩) := by
  unfold onlineStep
  simp only [hfind]
  split
  · exact .inl ⟨_, rfl⟩
  · split
    · exact .inl ⟨_, rfl⟩
    · split
      · exact .inl ⟨_, rfl⟩
      · exact .inr ⟨by omega, rfl⟩

/-- A walk that waits ends or goes on with what was fetched. -/
theorem onlineStep_of_waits (env : Environment) (anchors : Option AnchorStore)
    (hwaits : walk.Waits) :
    (∃ result, onlineStep env source anchors i walk = .inr result) ∨
      ∃ fetched, source i walk.current = .ok fetched ∧ fetched ≠ [] ∧
        onlineStep env source anchors i walk =
          .inl { walk with pool := walk.pool ++ fetched } := by
  have hfind : walk.pool.find? (·.subjectName = walk.current.issuerName) = none := hwaits
  unfold onlineStep
  simp only [hfind]
  cases hsource : source i walk.current with
  | error e => exact .inl ⟨_, rfl⟩
  | ok fetched =>
    by_cases hempty : fetched.isEmpty
    · simp only [hempty, if_true]
      exact .inl ⟨_, rfl⟩
    · exact .inr ⟨fetched, rfl, by simpa using hempty, if_neg hempty⟩

/-- A chain that is returned has the certificates of the walk, and at most one more. -/
theorem onlineStep_eq_chain {chain : List Cert}
    (h : onlineStep env source anchors i walk = .inr (.ok chain)) :
    chain = walk.out ∨ ∃ parent, walk.steps < 32 ∧ chain = walk.out ++ [parent] := by
  unfold onlineStep at h
  cases hfind : walk.pool.find? (·.subjectName = walk.current.issuerName) with
  | some parent =>
    simp only [hfind] at h
    by_cases hlong : 32 < walk.steps + 1
    · rw [if_pos hlong] at h
      exact absurd (Sum.inr.inj h) Outcome.bail_ne_ok
    · right
      refine ⟨parent, by omega, ?_⟩
      rw [if_neg hlong] at h
      split at h
      · exact (Except.ok.inj (Sum.inr.inj h)).symm
      · split at h
        · exact (Except.ok.inj (Sum.inr.inj h)).symm
        · simp at h
  | none =>
    left
    simp only [hfind] at h
    cases hsource : source i walk.current with
    | error e => simp [hsource] at h
    | ok fetched =>
      simp only [hsource] at h
      split at h
      · have hend := Sum.inr.inj h
        unfold endWithoutIssuer at hend
        split at hend
        · split at hend
          · exact (Except.ok.inj hend).symm
          · exact absurd hend Outcome.bail_ne_ok
        · exact absurd hend Outcome.bail_ne_ok
      · simp at h

end

/-! ## The length of the chain -/

/-- The counter of the loop is the length of the chain. -/
theorem length_of_run {fuel i : ℕ} {walk : OnlineWalk} {result : Outcome (List Cert)}
    (hlength : walk.out.length = walk.steps ∧ walk.steps ≤ 32)
    (h : run (onlineStep env source anchors) fuel i walk = some result) :
    ∀ chain, result = .ok chain → chain.length ≤ 32 := by
  apply run_induction (fun walk => walk.out.length = walk.steps ∧ walk.steps ≤ 32)
    (fun result => ∀ chain, result = .ok chain → chain.length ≤ 32) ?_ ?_ hlength h
  · intro i walk walk' hwalk hstep
    rcases onlineStep_eq_inl hstep with
      ⟨parent, -, -, -, hroom, rfl⟩ | ⟨-, fetched, -, -, rfl⟩
    · show (walk.out ++ [parent]).length = walk.steps + 1 ∧ walk.steps + 1 ≤ 32
      rw [List.length_append, List.length_singleton, hwalk.1]
      exact ⟨rfl, hroom⟩
    · exact hwalk
  · intro i walk result hwalk hstep chain hchain
    subst hchain
    rcases onlineStep_eq_chain hstep with rfl | ⟨parent, hroom, rfl⟩
    · omega
    · rw [List.length_append, List.length_singleton]
      omega

/-- How many iterations are left, but for the useless ones: two for each certificate that the
chain has room for, and a request. -/
def OnlineWalk.room (walk : OnlineWalk) : ℕ :=
  2 * (32 - walk.steps) + if walk.Waits then 1 else 0

/-- The walk climbs, finds what it looks for, or gets a useless answer. -/
theorem room_of_step {i : ℕ} {walk walk' : OnlineWalk}
    (h : onlineStep env source anchors i walk = .inl walk') :
    walk'.room < walk.room ∨ walk'.room ≤ walk.room ∧ useless walk walk' = true := by
  unfold OnlineWalk.room useless
  rcases onlineStep_eq_inl h with ⟨parent, hfind, _, _, hroom, rfl⟩ | ⟨hwaits, fetched, _, _, rfl⟩
  · left
    have hfound : ¬ walk.Waits := fun hwaits =>
      absurd (hfind.symm.trans hwaits) (Option.some_ne_none parent)
    rw [if_neg hfound]
    dsimp only
    split <;> omega
  · rw [if_pos hwaits]
    by_cases hagain : OnlineWalk.Waits { walk with pool := walk.pool ++ fetched }
    · right
      rw [if_pos hagain]
      exact ⟨Nat.le_refl _, by simp [hwaits, hagain]⟩
    · left
      rw [if_neg hagain]
      exact Nat.lt_succ_self _

/-! ## Waiting for an issuer -/

section

variable {i : ℕ} {walk : OnlineWalk}

theorem waits_append {fetched : List Cert} (hwaits : walk.Waits) :
    OnlineWalk.Waits { walk with pool := walk.pool ++ fetched } ↔
      ∀ other ∈ fetched, other.subjectName ≠ walk.current.issuerName := by
  have hpool : walk.pool.find? (·.subjectName = walk.current.issuerName) = none := hwaits
  show (walk.pool ++ fetched).find? (·.subjectName = walk.current.issuerName) = none ↔ _
  rw [List.find?_append, hpool, Option.none_or, List.find?_eq_none]
  simp

/-- With a starved certificate the loop never ends. -/
theorem not_ends_of_starves (hwaits : walk.Waits) (hstarves : Starves source i walk.current) :
    ¬ Ends (onlineStep env source anchors) i walk := by
  refine not_ends (fun i walk => walk.Waits ∧ Starves source i walk.current) ?_ ⟨hwaits, hstarves⟩
  intro i walk ⟨hwaits, hstarves⟩
  obtain ⟨fetched, hsource, hne, hother⟩ := hstarves i (Nat.le_refl i)
  refine ⟨{ walk with pool := walk.pool ++ fetched }, ?_, (waits_append hwaits).mpr hother,
    fun j hj => hstarves j (by omega)⟩
  have hfind : walk.pool.find? (·.subjectName = walk.current.issuerName) = none := hwaits
  unfold onlineStep
  simp only [hfind, hsource]
  rw [if_neg (by simpa using hne)]

/-- A walk that waits for a certificate that is not starved ends or finds the issuer. -/
theorem ends_or_finds (hwaits : walk.Waits) (hstarves : ¬ Starves source i walk.current) :
    Ends (onlineStep env source anchors) i walk ∨
      ∃ j walk', Reaches (onlineStep env source anchors) i walk j walk' ∧
        walk'.steps = walk.steps ∧ ¬ walk'.Waits := by
  unfold Starves at hstarves
  push Not at hstarves
  obtain ⟨j, hij, hhelpful⟩ := hstarves
  -- induction on how far off the helpful answer is
  induction hn : j - i generalizing i walk with
  | zero =>
    obtain rfl : i = j := by omega
    rcases onlineStep_of_waits env anchors hwaits with
      ⟨result, hstep⟩ | ⟨fetched, hsource, hne, hstep⟩
    · exact .inl (ends_of_inr hstep)
    · right
      obtain ⟨other, hother, hname⟩ := hhelpful fetched hsource hne
      refine ⟨i + 1, _, .next hstep .refl, rfl, ?_⟩
      rw [waits_append hwaits]
      exact fun h => h other hother hname
  | succ n ih =>
    rcases onlineStep_of_waits env anchors hwaits with
      ⟨result, hstep⟩ | ⟨fetched, hsource, hne, hstep⟩
    · exact .inl (ends_of_inr hstep)
    · by_cases hagain : OnlineWalk.Waits { walk with pool := walk.pool ++ fetched }
      · rcases ih (i := i + 1) hagain (by omega) hhelpful (by omega) with
          hends | ⟨k, walk', hreach, hsteps, hfound⟩
        · exact .inl ((ends_iff_of_inl hstep).mpr hends)
        · exact .inr ⟨k, walk', .next hstep hreach, hsteps, hfound⟩
      · exact .inr ⟨i + 1, _, .next hstep .refl, rfl, hagain⟩

/-- An issuer in the pool brings the walk closer to its end. -/
theorem ends_or_climbs (hfound : ¬ walk.Waits) :
    Ends (onlineStep env source anchors) i walk ∨
      ∃ j walk', Reaches (onlineStep env source anchors) i walk j walk' ∧
        32 - walk'.steps < 32 - walk.steps := by
  obtain ⟨parent, hfind⟩ := Option.ne_none_iff_exists'.mp hfound
  rcases onlineStep_of_find (i := i) env source anchors hfind with
    ⟨result, hstep⟩ | ⟨hroom, hstep⟩
  · exact .inl (ends_of_inr hstep)
  · refine .inr ⟨i + 1, _, .next hstep .refl, ?_⟩
    show 32 - (walk.steps + 1) < 32 - walk.steps
    omega

/-- The loop ends exactly if it does not come to a certificate that is starved. -/
theorem ends_iff :
    Ends (onlineStep env source anchors) i walk ↔
      ∀ j walk', Reaches (onlineStep env source anchors) i walk j walk' → walk'.Waits →
        ¬ Starves source j walk'.current := by
  constructor
  · intro hends j walk' hreach hwaits hstarves
    exact not_ends_of_starves hwaits hstarves (hreach.ends_iff.mp hends)
  · intro hfed
    apply ends_of_rank fun walk => 32 - walk.steps
    intro j walk' hreach
    by_cases hwaits : walk'.Waits
    · rcases ends_or_finds hwaits (hfed j walk' hreach hwaits) with
        hends | ⟨k, found, hreach', hsteps, hfound⟩
      · exact .inl hends
      · rcases ends_or_climbs hfound with hends | ⟨l, higher, hreach'', hlt⟩
        · exact .inl (hreach'.ends_iff.mpr hends)
        · exact .inr ⟨l, higher, hreach'.trans hreach'', hsteps ▸ hlt⟩
    · exact ends_or_climbs hwaits

end

/-! ## The walk of a leaf -/

/-- **Termination of the online walk.**  For every leaf, pool and source the walk returns
a chain of at most 32 certificates or an error, exactly if it never waits for the issuer
of a certificate that the source starves from then on.  It does so within 66 iterations and one
for each useless answer. -/
theorem online_chain_ends_iff (leaf : Cert) (pool : List Cert) :
    ((∃ fuel result, onlineChain env source anchors fuel leaf pool = some result ∧
      ∀ chain, result = .ok chain → chain.length ≤ 32) ↔
    (leaf.subjectName ≠ leaf.issuerName → ∀ i walk,
      Reaches (onlineStep env source anchors) 0 (.init leaf pool) i walk → walk.Waits →
        ¬ Starves source i walk.current)) ∧
    ∀ fuel, 66 + stalled (onlineStep env source anchors) useless fuel 0 (.init leaf pool) ≤ fuel →
      ∃ result, onlineChain env source anchors fuel leaf pool = some result ∧
        ∀ chain, result = .ok chain → chain.length ≤ 32 := by
  unfold onlineChain
  by_cases hself : leaf.subjectName = leaf.issuerName
  · simp only [if_pos hself]
    have hnil : ∀ chain : List Cert, (Except.ok [] : Outcome (List Cert)) = .ok chain →
        chain.length ≤ 32 := by
      intro chain hchain
      rw [← Except.ok.inj hchain]
      exact Nat.zero_le 32
    exact ⟨iff_of_true ⟨0, .ok [], rfl, hnil⟩ fun h => absurd hself h,
      fun fuel _ => ⟨.ok [], rfl, hnil⟩⟩
  · simp only [ne_eq, hself, if_false, not_false_eq_true, forall_const]
    refine ⟨?_, ?_⟩
    · rw [← ends_iff]
      constructor
      · intro ⟨fuel, result, hrun, _⟩
        exact ⟨fuel, result, hrun⟩
      · intro ⟨fuel, result, hrun⟩
        exact ⟨fuel, result, hrun, length_of_run ⟨rfl, Nat.zero_le 32⟩ hrun⟩
    · intro fuel hfuel
      cases hrun : run (onlineStep env source anchors) fuel 0 (.init leaf pool) with
      | some result => exact ⟨result, rfl, length_of_run ⟨rfl, Nat.zero_le 32⟩ hrun⟩
      | none =>
        have hle : fuel ≤ (OnlineWalk.init leaf pool).room +
            stalled (onlineStep env source anchors) useless fuel 0 (.init leaf pool) :=
          le_of_run_eq_none OnlineWalk.room (fun i walk walk' => room_of_step) hrun
        have hroom : (OnlineWalk.init leaf pool).room ≤ 65 := by
          unfold OnlineWalk.room OnlineWalk.init
          split <;> omega
        omega

/-! ## The source alone -/

/-- The walk stays at certificates that another certificate issued. -/
theorem issued_of_reaches {i j : ℕ} {walk walk' : OnlineWalk}
    (hreach : Reaches (onlineStep env source anchors) i walk j walk')
    (h : walk.current.subjectName ≠ walk.current.issuerName) :
    walk'.current.subjectName ≠ walk'.current.issuerName := by
  induction hreach with
  | refl => exact h
  | next hstep _ ih =>
    apply ih
    rcases onlineStep_eq_inl hstep with ⟨parent, -, -, hissued, -, rfl⟩ | ⟨-, fetched, -, -, rfl⟩
    · exact hissued
    · exact h

/-- The walk ends for every leaf and pool, and after any number of requests, exactly if
the source starves no certificate that another one issued. -/
theorem online_chain_always_ends_iff :
    (∀ i leaf pool, leaf.subjectName ≠ leaf.issuerName →
      Ends (onlineStep env source anchors) i (.init leaf pool)) ↔
    ∀ i cert, cert.subjectName ≠ cert.issuerName → ¬ Starves source i cert := by
  constructor
  · intro hends i cert hissued hstarves
    have hwaits : (OnlineWalk.init cert []).Waits := rfl
    exact not_ends_of_starves hwaits hstarves (hends i cert [] hissued)
  · intro hfed i leaf pool hissued
    apply ends_iff.mpr
    intro j walk hreach _
    exact hfed j walk.current (issued_of_reaches hreach hissued)

/-! ## The function of the program -/

/-- The loop in `issuer_chain_excluding_leaf_online` is the loop over a source that gives
the answers of the network. -/
theorem issuerChainOnlineFrom_eq_run {online : OnlineTrustOptions} {fuel i : ℕ}
    (hsource : ∀ k < fuel, ∀ cert,
      source (i + k) cert = issuerCandidatesFromAia env (fuel - 1 - k) cert online)
    (walk : OnlineWalk) :
    issuerChainOnlineFrom env online anchors fuel walk.pool walk.current walk.out walk.steps =
      (run (onlineStep env source anchors) fuel i walk).getD (.error .outOfFuel) := by
  induction fuel generalizing i walk with
  | zero => rfl
  | succ fuel ih =>
    have hrest : ∀ k < fuel, ∀ cert,
        source (i + 1 + k) cert = issuerCandidatesFromAia env (fuel - 1 - k) cert online := by
      intro k hk cert
      have hnext := hsource (k + 1) (by omega) cert
      rw [show i + (k + 1) = i + 1 + k by omega,
        show fuel + 1 - 1 - (k + 1) = fuel - 1 - k by omega] at hnext
      exact hnext
    rw [issuerChainOnlineFrom, run]
    unfold onlineStep
    cases hfind : walk.pool.find? (·.subjectName = walk.current.issuerName) with
    | some parent =>
      simp only
      split
      · rfl
      · split
        · rfl
        · split
          · rfl
          · exact ih hrest ⟨walk.pool, parent, walk.out ++ [parent], walk.steps + 1⟩
    | none =>
      rw [show source i walk.current = issuerCandidatesFromAia env fuel walk.current online from
        hsource 0 (Nat.zero_lt_succ fuel) walk.current]
      cases issuerCandidatesFromAia env fuel walk.current online with
      | error e => rfl
      | ok fetched =>
        by_cases hempty : fetched.isEmpty
        · simp only [Outcome.ok_bind, if_pos hempty]
          rfl
        · simp only [Outcome.ok_bind, if_neg hempty]
          exact ih hrest { walk with pool := walk.pool ++ fetched }

theorem issuerChainExcludingLeafOnline_eq (online : OnlineTrustOptions) (fuel : ℕ) (leaf : Cert)
    (pool : List Cert) :
    issuerChainExcludingLeafOnline env fuel leaf pool online anchors =
      (onlineChain env (fun i cert => issuerCandidatesFromAia env (fuel - 1 - i) cert online)
        anchors fuel leaf pool).getD (.error .outOfFuel) := by
  unfold issuerChainExcludingLeafOnline onlineChain
  split
  · rfl
  · refine issuerChainOnlineFrom_eq_run (i := 0) ?_ (.init leaf pool)
    intro k _ cert
    rw [Nat.zero_add]

open CrossSigned in
/-- A server that answers every request with the leaf. -/
theorem online_chain_never_ends :
    ¬ ∃ fuel result, onlineChain sampleEnv (fun _ _ => .ok [leaf]) (some store) fuel leaf [] =
        some result ∧ ∀ chain, result = .ok chain → chain.length ≤ 32 := by
  intro ⟨fuel, result, hrun, _⟩
  have hstarves : Starves (fun _ _ => .ok [leaf]) 0 leaf := by
    intro j _
    exact ⟨[leaf], rfl, by decide, by decide⟩
  have hwaits : (OnlineWalk.init leaf []).Waits := rfl
  exact not_ends_of_starves hwaits hstarves ⟨fuel, result, hrun⟩

end Psign.Trust
