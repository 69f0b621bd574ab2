import Psign.Trust.ChainOnline

/-!
# The two issuer walks agree

`issuer_chain_excluding_leaf` and `issuer_chain_excluding_leaf_online` return the same where no
issuer is fetched.  The first counts the certificates that may still be added, the second those that
were added; and they ask in another order whether a certificate ends the chain, which does not
matter because either answer ends it with the same certificates.

What holds of a chain is said of the first walk (`linked_of_issuerChainFrom`), by induction on the
certificates that may still be added.
-/

namespace Psign.Trust

open CodeLib CodeLib.Loop Psign.Sip

variable {env : Environment} {online : OnlineTrustOptions} {anchors : Option AnchorStore}
  {pool : List Cert}

/-- No issuer is fetched for any certificate. -/
def NoCandidates (env : Environment) (online : OnlineTrustOptions) : Prop :=
  ∀ request cert, issuerCandidatesFromAia env request cert online = .ok []

theorem noCandidates_of_noAia (h : online.NoAia) : NoCandidates env online :=
  issuerCandidatesFromAia_of_noAia h

/-! ## The same chain -/

/-- From the same certificate both walks go on in the same way. -/
theorem issuerChainOnlineFrom_eq (hnone : NoCandidates env online) {room fuel steps : ℕ}
    (hsteps : steps + room = 32) (hfuel : room < fuel) (current : Cert) (out : List Cert) :
    issuerChainOnlineFrom env online anchors fuel pool current out steps =
      issuerChainFrom env pool anchors room current.issuerName out := by
  induction room generalizing fuel steps current out with
  | zero =>
    obtain ⟨fuel, rfl⟩ := Nat.exists_eq_add_one.mpr hfuel
    rw [issuerChainOnlineFrom, issuerChainFrom]
    cases pool.find? (·.subjectName = current.issuerName) with
    | none => rw [hnone]; rfl
    | some parent =>
      dsimp only
      rw [if_pos (by omega)]
  | succ room ih =>
    obtain ⟨fuel, rfl⟩ := Nat.exists_eq_add_one.mpr (Nat.zero_lt_of_lt hfuel)
    rw [issuerChainOnlineFrom, issuerChainFrom]
    cases pool.find? (·.subjectName = current.issuerName) with
    | none => rw [hnone]; rfl
    | some parent =>
      have hrest := @ih fuel (steps + 1) (by omega) (by omega) parent (out ++ [parent])
      dsimp only
      rw [if_neg (by omega), hrest]
      by_cases hself : parent.subjectName = parent.issuerName
      · rw [if_pos hself, if_pos hself, ite_self]
      · rw [if_neg hself, if_neg hself]

/-- Without an issuer that is fetched the loop keeps its pool. -/
theorem pool_of_reaches {source : AiaSource} (hnone : ∀ i cert, source i cert = .ok [])
    {i j : ℕ} {walk walk' : OnlineWalk}
    (h : Reaches (onlineStep env source anchors) i walk j walk') : walk'.pool = walk.pool := by
  induction h with
  | refl => rfl
  | next hstep _ ih =>
    rw [ih]
    rcases onlineStep_eq_inl hstep with ⟨parent, _, _, _, _, rfl⟩ | ⟨_, fetched, hsource, hne, _⟩
    · rfl
    · rw [hnone] at hsource
      exact absurd (Except.ok.inj hsource).symm hne

/-! ## What a chain is -/

/-- A walk without an issuer to go on with returns what it has, which ends in an anchor. -/
theorem endWithoutIssuer_eq_ok {out chain : List Cert} {issuerDn : List UInt8}
    (h : endWithoutIssuer env anchors out issuerDn = .ok chain) : chain = out ∧ chain ≠ [] := by
  unfold endWithoutIssuer at h
  cases hlast : out.getLast? with
  | none =>
    rw [hlast] at h
    exact absurd h Outcome.bail_ne_ok
  | some last =>
    rw [hlast] at h
    dsimp only at h
    by_cases htrusted : isTrusted env.cms.hashes anchors last = true
    · rw [if_pos htrusted] at h
      obtain rfl := Except.ok.inj h
      exact ⟨rfl, fun hnil => by rw [hnil] at hlast; exact nomatch hlast⟩
    · rw [if_neg htrusted] at h
      exact absurd h Outcome.bail_ne_ok

/-- A walk adds certificates of which each has the name that the one before it was issued by, and
what it returns is not empty. -/
theorem linked_of_issuerChainFrom {room : ℕ} {current : Cert} {out chain : List Cert}
    (h : issuerChainFrom env pool anchors room current.issuerName out = .ok chain) :
    ∃ path, chain = out ++ path ∧ Linked current path ∧ path.length ≤ room ∧ chain ≠ [] := by
  induction room generalizing current out with
  | zero =>
    rw [issuerChainFrom] at h
    cases hfind : pool.find? (·.subjectName = current.issuerName) with
    | none =>
      rw [hfind] at h
      obtain ⟨hchain, hne⟩ := endWithoutIssuer_eq_ok h
      exact ⟨[], by rw [hchain, List.append_nil], trivial, Nat.le_refl 0, hne⟩
    | some parent =>
      rw [hfind] at h
      exact absurd h Outcome.bail_ne_ok
  | succ room ih =>
    rw [issuerChainFrom] at h
    cases hfind : pool.find? (·.subjectName = current.issuerName) with
    | none =>
      rw [hfind] at h
      obtain ⟨hchain, hne⟩ := endWithoutIssuer_eq_ok h
      exact ⟨[], by rw [hchain, List.append_nil], trivial, Nat.zero_le _, hne⟩
    | some parent =>
      have hname : parent.subjectName = current.issuerName := by
        simpa using List.find?_some hfind
      rw [hfind] at h
      dsimp only at h
      have hlast : out ++ [parent] = chain →
          ∃ path, chain = out ++ path ∧ Linked current path ∧ path.length ≤ room + 1 ∧
            chain ≠ [] := by
        intro hchain
        refine ⟨[parent], hchain.symm, ⟨hname, trivial⟩, Nat.le_add_left 1 room, ?_⟩
        rw [← hchain]
        exact List.append_ne_nil_of_right_ne_nil out (List.cons_ne_nil parent [])
      by_cases hself : parent.subjectName = parent.issuerName
      · rw [if_pos hself] at h
        exact hlast (Except.ok.inj h)
      · rw [if_neg hself] at h
        by_cases htrusted : isTrusted env.cms.hashes anchors parent = true
        · rw [if_pos htrusted] at h
          exact hlast (Except.ok.inj h)
        · rw [if_neg htrusted] at h
          obtain ⟨path, hchain, hlinked, hlength, hne⟩ := ih h
          refine ⟨parent :: path, ?_, ⟨hname, hlinked⟩, Nat.succ_le_succ hlength, hne⟩
          rw [hchain, List.append_assoc]
          rfl

/-! ## Agreement -/

/-- For every leaf, pool and anchor store both walks return the same where no issuer is fetched, and
the online walk keeps its pool.  A chain has at most 32 certificates, each has the name that the one
before it was issued by, and a leaf that another certificate issued has a last certificate in its
chain, which is the terminal root. -/
theorem issuer_walks_agree (hnone : NoCandidates env online) (leaf : Cert) (pool : List Cert)
    (anchors : Option AnchorStore) {fuel : ℕ} (hfuel : 32 < fuel) :
    issuerChainExcludingLeafOnline env fuel leaf pool online anchors =
        issuerChainExcludingLeaf env leaf pool anchors ∧
      (∀ i walk, Reaches (onlineStep env
          (fun i cert => issuerCandidatesFromAia env (fuel - 1 - i) cert online) anchors) 0
          (.init leaf pool) i walk → walk.pool = pool) ∧
      ∀ chain, issuerChainExcludingLeaf env leaf pool anchors = .ok chain →
        Linked leaf chain ∧ chain.length ≤ 32 ∧
          (leaf.subjectName ≠ leaf.issuerName →
            ∃ root, chain.getLast? = some root ∧ terminalRootCert leaf chain = root) := by
  refine ⟨?_, fun i walk h => pool_of_reaches (fun i cert => hnone _ cert) h, fun chain h => ?_⟩
  · unfold issuerChainExcludingLeafOnline issuerChainExcludingLeaf
    rw [issuerChainOnlineFrom_eq hnone rfl hfuel]
  · unfold issuerChainExcludingLeaf at h
    by_cases hself : leaf.subjectName = leaf.issuerName
    · rw [if_pos hself] at h
      obtain rfl := Except.ok.inj h
      exact ⟨trivial, Nat.zero_le _, fun hissued => absurd hself hissued⟩
    · rw [if_neg hself] at h
      obtain ⟨path, hchain, hlinked, hlength, hne⟩ := linked_of_issuerChainFrom h
      obtain rfl : chain = path := hchain
      refine ⟨hlinked, hlength, fun _ => ⟨chain.getLast hne, List.getLast?_eq_some_getLast hne, ?_⟩⟩
      rw [terminalRootCert, if_neg hself, List.getLast?_eq_some_getLast hne, Option.getD_some]

open CrossSigned in
/-- Offline, from a leaf over an intermediate certificate to an anchor, with more in the pool. -/
theorem issuer_walks_agree_offline :
    issuerChainExcludingLeafOnline sampleEnv 33 client [anchor, namesake, leaf, intermediate]
        offline (some store) =
      issuerChainExcludingLeaf sampleEnv client [anchor, namesake, leaf, intermediate]
        (some store) ∧
    issuerChainExcludingLeaf sampleEnv client [anchor, namesake, leaf, intermediate] (some store) =
      .ok [intermediate, anchor] :=
  ⟨(issuer_walks_agree (noCandidates_of_noAia (by decide)) client
    [anchor, namesake, leaf, intermediate] (some store) (by decide)).1, rfl⟩

end Psign.Trust
