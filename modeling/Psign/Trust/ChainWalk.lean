import Psign.Trust.Tables

/-!
# Which anchors an issuer walk reaches

`issuer_chain_excluding_leaf_online` without AIA follows the first certificate of
the pool with the issuer's name.  It never goes back, so a second certificate with
that name can hide the way to an anchor.

A path is unambiguous in a pool where each of its certificates is the only one with
its subject.  The walk follows such a path in every pool, and so does not depend on
the order of the pool or on certificates with other subjects.  Certificates that
are added behind a pool never change a chain that was found.
-/

namespace Psign.Trust

open CodeLib Psign.Sip

/-- Nothing is fetched. -/
def OnlineTrustOptions.NoAia (online : OnlineTrustOptions) : Prop :=
  online.enableAia = false ∧ online.aiaUrlOverride = none

instance (online : OnlineTrustOptions) : Decidable online.NoAia :=
  inferInstanceAs (Decidable (_ ∧ _))

/-- Every certificate has the name that the one before it was issued by. -/
def Linked : Cert → List Cert → Prop
  | _, [] => True
  | current, parent :: rest => parent.subjectName = current.issuerName ∧ Linked parent rest

instance decidableLinked : (current : Cert) → (path : List Cert) → Decidable (Linked current path)
  | _, [] => inferInstanceAs (Decidable True)
  | _, parent :: rest =>
    have := decidableLinked parent rest
    inferInstanceAs (Decidable (_ ∧ Linked parent rest))

/-- The certificates of a path are in the pool, and are the only ones there with
their subjects. -/
def Unambiguous (pool path : List Cert) : Prop :=
  ∀ cert ∈ path, cert ∈ pool ∧ ∀ other ∈ pool, other.subjectName = cert.subjectName → other = cert

instance (pool path : List Cert) : Decidable (Unambiguous pool path) :=
  inferInstanceAs (Decidable (∀ cert ∈ path, _))

/-- The part of a path that ends at its first trusted certificate. -/
def upToTrusted (hashes : Hashes) (anchors : Option AnchorStore) : List Cert → List Cert
  | [] => []
  | cert :: rest =>
    if isTrusted hashes anchors cert then [cert] else cert :: upToTrusted hashes anchors rest

variable {env : Environment} {online : OnlineTrustOptions} {anchors : Option AnchorStore}

/-! ## Steps of the walk -/

theorem Unambiguous.tail {pool path : List Cert} {cert : Cert}
    (h : Unambiguous pool (cert :: path)) : Unambiguous pool path :=
  fun other hother => h other (List.mem_cons_of_mem _ hother)

/-- The lookup by name finds the next certificate of an unambiguous path. -/
theorem Unambiguous.find? {pool path : List Cert} {parent : Cert} {name : List UInt8}
    (h : Unambiguous pool (parent :: path)) (hname : parent.subjectName = name) :
    pool.find? (·.subjectName = name) = some parent := by
  obtain ⟨hmem, honly⟩ := h parent List.mem_cons_self
  cases hfind : pool.find? (·.subjectName = name) with
  | none =>
    have hne := List.find?_eq_none.mp hfind parent hmem
    simp [hname] at hne
  | some found =>
    have hfound : found.subjectName = name := by simpa using List.find?_some hfind
    rw [honly found (List.mem_of_find?_eq_some hfind) (hfound.trans hname.symm)]

/-- Behind a self-issued certificate an unambiguous path stays where it is. -/
theorem eq_of_linked_selfIssued {pool path : List Cert} {cert : Cert} (hmem : cert ∈ pool)
    (hself : cert.subjectName = cert.issuerName) (hlinked : Linked cert path)
    (hpath : Unambiguous pool path) : ∀ other ∈ path, other = cert := by
  induction path with
  | nil => simp
  | cons next path ih =>
    obtain ⟨hname, hrest⟩ := hlinked
    have hnext : cert = next :=
      (hpath next List.mem_cons_self).2 cert hmem (hself.trans hname.symm)
    subst hnext
    intro other hother
    rcases List.mem_cons.mp hother with rfl | hother
    · rfl
    · exact ih hrest hpath.tail other hother

theorem mem_upToTrusted {hashes : Hashes} {path : List Cert} {anchor : Cert} (h : anchor ∈ path)
    (hanchor : isTrusted hashes anchors anchor = true) :
    ∃ root, (upToTrusted hashes anchors path).getLast? = some root ∧
      isTrusted hashes anchors root = true := by
  induction path with
  | nil => exact absurd h List.not_mem_nil
  | cons cert path ih =>
    rw [upToTrusted]
    by_cases htrusted : isTrusted hashes anchors cert = true
    · rw [if_pos htrusted]
      exact ⟨cert, rfl, htrusted⟩
    · rw [if_neg htrusted]
      rcases List.mem_cons.mp h with rfl | h
      · exact absurd hanchor htrusted
      · obtain ⟨root, hroot, htrustedRoot⟩ := ih h
        refine ⟨root, ?_, htrustedRoot⟩
        rw [List.getLast?_cons, hroot]
        rfl

/-- The walk follows an unambiguous path up to its first trusted certificate. -/
theorem issuerChainOnlineFrom_of_path {pool path out : List Cert} {current anchor : Cert}
    {fuel steps : Nat} (hlinked : Linked current path) (hpath : Unambiguous pool path)
    (hanchor : anchor ∈ path) (htrusted : isTrusted env.cms.hashes anchors anchor = true)
    (hsteps : steps + path.length ≤ 32) (hfuel : path.length ≤ fuel) :
    issuerChainOnlineFrom env online anchors fuel pool current out steps =
      .ok (out ++ upToTrusted env.cms.hashes anchors path) := by
  induction path generalizing fuel current out steps with
  | nil => exact absurd hanchor List.not_mem_nil
  | cons parent path ih =>
    obtain ⟨hname, hrest⟩ := hlinked
    rw [List.length_cons] at hsteps hfuel
    cases fuel with
    | zero => omega
    | succ fuel =>
      simp only [issuerChainOnlineFrom, hpath.find? hname, upToTrusted]
      rw [if_neg (by omega)]
      by_cases hparent : isTrusted env.cms.hashes anchors parent = true
      · rw [if_pos hparent, if_pos hparent]
      · rw [if_neg hparent, if_neg hparent]
        have hanchor : anchor ∈ path := by
          rcases List.mem_cons.mp hanchor with rfl | hanchor
          · exact absurd htrusted hparent
          · exact hanchor
        -- an untrusted self-issued certificate leads to no anchor
        have hself : parent.subjectName ≠ parent.issuerName := by
          intro hself
          have hmem := (hpath parent List.mem_cons_self).1
          have := eq_of_linked_selfIssued hmem hself hrest hpath.tail anchor hanchor
          exact hparent (this ▸ htrusted)
        rw [if_neg hself, ih hrest hpath.tail hanchor (by omega) (by omega), List.append_assoc]
        rfl

/-! ## Larger pools -/

theorem issuerCandidatesFromAia_of_noAia (h : online.NoAia) (request : Nat) (cert : Cert) :
    issuerCandidatesFromAia env request cert online = .ok [] := by
  rw [issuerCandidatesFromAia, if_pos ⟨by simp [h.1], h.2⟩]

/-- Certificates behind the pool do not change a chain that was found. -/
theorem issuerChainOnlineFrom_append {pool extra out chain : List Cert} {current : Cert}
    {fuel steps : Nat} (honline : online.NoAia)
    (hout : ∀ last ∈ out.getLast?, isTrusted env.cms.hashes anchors last = false)
    (h : issuerChainOnlineFrom env online anchors fuel pool current out steps = .ok chain) :
    issuerChainOnlineFrom env online anchors fuel (pool ++ extra) current out steps =
      .ok chain := by
  induction fuel generalizing current out steps with
  | zero => simp [issuerChainOnlineFrom] at h
  | succ fuel ih =>
    rw [issuerChainOnlineFrom] at h
    cases hfind : pool.find? (·.subjectName = current.issuerName) with
    | none =>
      -- without an issuer the walk fails: the last certificate is not trusted
      rw [hfind] at h
      simp only [issuerCandidatesFromAia_of_noAia honline, Outcome.bind_eq_ok, Except.ok.injEq,
        exists_eq_left', List.isEmpty_nil, if_true, endWithoutIssuer, unresolvedIssuer] at h
      cases hlast : out.getLast? with
      | none => simp [hlast] at h
      | some last => simp [hlast, hout last hlast] at h
    | some parent =>
      rw [hfind] at h
      rw [issuerChainOnlineFrom, List.find?_append, hfind, Option.some_or]
      simp only at h ⊢
      by_cases hlong : 32 < steps + 1
      · rw [if_pos hlong] at h
        exact absurd h Outcome.bail_ne_ok
      · rw [if_neg hlong] at h ⊢
        by_cases hparent : isTrusted env.cms.hashes anchors parent = true
        · rw [if_pos hparent] at h ⊢
          exact h
        · rw [if_neg hparent] at h ⊢
          by_cases hself : parent.subjectName = parent.issuerName
          · rw [if_pos hself] at h ⊢
            exact h
          · rw [if_neg hself] at h ⊢
            refine ih ?_ h
            intro last hlast
            rw [List.getLast?_append, List.getLast?_singleton, Option.some_or] at hlast
            obtain rfl := Option.mem_some.mp hlast
            simpa using hparent

/-! ## Completeness -/

/-- Where a path of at most 32 certificates leads to an anchor, one chain that ends
in the anchor store is what the walk returns in every pool in which the path is
unambiguous.  Whatever leads to it, a chain that was found stays when certificates are added
behind the pool. -/
theorem issuer_chain_reaches_anchor (leaf : Cert) :
    (∀ anchor path, Linked leaf path → path.length ≤ 32 → anchor ∈ path →
      isTrusted env.cms.hashes anchors anchor = true →
      (leaf.subjectName = leaf.issuerName → isTrusted env.cms.hashes anchors leaf = true) →
      ∃ chain, isTrusted env.cms.hashes anchors (terminalRootCert leaf chain) = true ∧
        ∀ pool online fuel, online.NoAia → 32 ≤ fuel → Unambiguous pool path →
          issuerChainExcludingLeafOnline env fuel leaf pool online anchors = .ok chain) ∧
    ∀ pool extra online fuel chain, online.NoAia →
      issuerChainExcludingLeafOnline env fuel leaf pool online anchors = .ok chain →
      issuerChainExcludingLeafOnline env fuel leaf (pool ++ extra) online anchors = .ok chain := by
  constructor
  · intro anchor path hlinked hlength hanchor htrusted hleaf
    by_cases hself : leaf.subjectName = leaf.issuerName
    · refine ⟨[], ?_, ?_⟩
      · rw [terminalRootCert, if_pos hself]
        exact hleaf hself
      · intro pool online fuel _ _ _
        rw [issuerChainExcludingLeafOnline, if_pos hself]
    · refine ⟨upToTrusted env.cms.hashes anchors path, ?_, ?_⟩
      · obtain ⟨root, hroot, htrustedRoot⟩ := mem_upToTrusted hanchor htrusted
        rw [terminalRootCert, if_neg hself, hroot]
        exact htrustedRoot
      · intro pool online fuel _ hfuel hpath
        rw [issuerChainExcludingLeafOnline, if_neg hself,
          issuerChainOnlineFrom_of_path hlinked hpath hanchor htrusted (by omega) (by omega),
          List.nil_append]
  · intro pool extra online fuel chain honline h
    rw [issuerChainExcludingLeafOnline] at h ⊢
    by_cases hself : leaf.subjectName = leaf.issuerName
    · rw [if_pos hself] at h ⊢
      exact h
    · rw [if_neg hself] at h ⊢
      exact issuerChainOnlineFrom_append honline (by simp) h

/-! ## A certificate authority with two certificates -/

namespace CrossSigned

/-- Nothing but hashing is used. -/
def sampleTables : Tables := ⟨[], [], [], [], [], [], [], []⟩

theorem sampleTables_valid : sampleTables.Valid := by decide

/-- The environment of the samples. -/
def sampleEnv : Environment := sampleTables.environment sampleTables_valid

/-- Offline, without revocation checks. -/
def offline : OnlineTrustOptions := ⟨false, none, .off⟩

/-- A leaf that was issued under the name 1. -/
def leaf : Cert := ⟨[1], [2], [1], [1], []⟩

/-- The trusted certificate with the name 1. -/
def anchor : Cert := ⟨[2], [1], [1], [2], []⟩

/-- A certificate with the name 3 that was issued under the name 1. -/
def intermediate : Cert := ⟨[4], [3], [1], [4], []⟩

/-- A leaf that was issued under the name 3. -/
def client : Cert := ⟨[5], [4], [3], [5], []⟩

/-- Another self-issued certificate with the name 1. -/
def namesake : Cert := ⟨[3], [1], [1], [3], []⟩

/-- The store with the anchor. -/
def store : AnchorStore := ⟨[certSha1Thumbprint sampleEnv.cms.hashes anchor]⟩

end CrossSigned

open CrossSigned in
/-- The path over the intermediate certificate to the anchor is found in a pool that has a leaf of
the anchor too. -/
theorem issuer_chain_reaches_anchor_alone :
    (∃ chain, isTrusted sampleEnv.cms.hashes (some store) (terminalRootCert client chain) = true ∧
      ∀ pool online fuel, online.NoAia → 32 ≤ fuel → Unambiguous pool [intermediate, anchor] →
        issuerChainExcludingLeafOnline sampleEnv fuel client pool online (some store) =
          .ok chain) ∧
    Unambiguous [anchor, leaf, intermediate] [intermediate, anchor] ∧ offline.NoAia ∧
    issuerChainExcludingLeafOnline sampleEnv 32 client ([anchor, leaf, intermediate] ++ [namesake])
      offline (some store) = .ok [intermediate, anchor] :=
  ⟨(issuer_chain_reaches_anchor client).1 anchor [intermediate, anchor] (by decide) (by decide)
      (by decide) (by decide) fun h => absurd h (by decide), by decide, by decide,
    (issuer_chain_reaches_anchor client).2 [anchor, leaf, intermediate] [namesake] offline 32
      [intermediate, anchor] (by decide) rfl⟩

open CrossSigned in
/-- The walk stops at the namesake of an anchor that stands before it in the pool,
and finds the anchor when it stands behind it or is not there.  From the namesake
as a leaf it does not go to the anchor either. -/
theorem namesake_hides_anchor :
    (Linked leaf [anchor] ∧ isTrusted sampleEnv.cms.hashes (some store) anchor = true) ∧
    (issuerChainExcludingLeafOnline sampleEnv 32 leaf [namesake, anchor] offline (some store) =
        .ok [namesake] ∧
      isTrusted sampleEnv.cms.hashes (some store) (terminalRootCert leaf [namesake]) = false) ∧
    issuerChainExcludingLeafOnline sampleEnv 32 leaf [anchor, namesake] offline (some store) =
      .ok [anchor] ∧
    issuerChainExcludingLeafOnline sampleEnv 32 leaf [anchor] offline (some store) =
      .ok [anchor] ∧
    (Linked namesake [anchor] ∧
      issuerChainExcludingLeafOnline sampleEnv 32 namesake [anchor] offline (some store) = .ok [] ∧
      isTrusted sampleEnv.cms.hashes (some store) (terminalRootCert namesake []) = false) := by
  refine ⟨⟨by decide, by decide⟩, ⟨rfl, by decide⟩, rfl, rfl, by decide, rfl, by decide⟩

end Psign.Trust
