import BranchSync.Proofs.Identifier.References
import BranchSync.Proofs.Repository.FirstOccurrence
import BranchSync.Proofs.Repository.PackForm

/-!
# Exports in parts

An export is the part of a history between the positions of its two tips. A position belongs to a
tip and not to an export, so exports that meet in a tip make up the export from the first to the
last, also in a history that repeats commits. A depth comes last: it shortens what would have been
exported without it and has no say in whether there is an export at all.
-/

namespace BranchSync

/-- An export fails exactly when its commits cannot be listed, and is their pack otherwise. -/
theorem Repository.exportPack_eq (r : Repository) (branch : String) (base : TipRef) (target : Tip)
    (depth : Depth) :
    r.exportPack branch base target depth =
      (exportCommits (r.history branch) branch base target depth).map Pack.encode := by
  unfold exportPack
  cases exportCommits (r.history branch) branch base target depth <;> rfl

/-- The pack of commits in two parts is the packs of the parts in a row. -/
theorem Pack.encode_append (first second : List CommitId) :
    encode (first ++ second) = encode first ++ encode second :=
  List.flatMap_append

/-- Commits that make up the same pack are the same. -/
theorem Pack.encode_inj {commits others : List CommitId} :
    encode commits = encode others ↔ commits = others := by
  rw [← decode_eq_ok_iff, decode_encode, Except.ok.injEq, eq_comm]

/-- The most recent commits are what remains when a depth trims a list that ends with them. -/
theorem Depth.trim_append {older recent : List CommitId} {count : UInt32}
    (h : recent.length = min count.toNat (older ++ recent).length) :
    trim (.limited count) (older ++ recent) = recent := by
  rw [List.length_append] at h
  have hcut : (older ++ recent).length - count.toNat = older.length := by
    rw [List.length_append]
    omega
  rw [trim, hcut]
  exact List.drop_left

namespace Repository

variable {history : List CommitId} {branch : String}

/-- Parts of a history that meet make up the part from the start of the first to the end of the
second. -/
theorem drop_take_append_drop_take {i j k : Nat} (hij : i ≤ j) (hjk : j ≤ k)
    (hj : j ≤ history.length) :
    (history.take j).drop i ++ (history.take k).drop j = (history.take k).drop i := by
  have hstart : (history.take k).take j = history.take j := by
    rw [List.take_take, Nat.min_eq_left hjk]
  have hlength : i ≤ (history.take j).length := by
    rw [List.length_take_of_le hj]
    exact hij
  calc (history.take j).drop i ++ (history.take k).drop j
      = (history.take j ++ (history.take k).drop j).drop i :=
        (List.drop_append_of_le_length hlength).symm
    _ = (history.take k).drop i := by rw [← hstart, List.take_append_drop]

/-- Two exports that meet in a tip list the commits of the export from the first to the last. -/
theorem exportCommits_append {a b c : Tip} {first second : List CommitId}
    (hfirst : exportCommits history branch (.tip a) b .unbounded = .ok first)
    (hsecond : exportCommits history branch (.tip b) c .unbounded = .ok second) :
    exportCommits history branch (.tip a) c .unbounded = .ok (first ++ second) := by
  obtain ⟨a', i, j, ha, hi, hj, hij, rfl⟩ := exportCommits_eq_ok_iff.mp hfirst
  obtain ⟨b', j', k, hb, hj', hk, hjk, rfl⟩ := exportCommits_eq_ok_iff.mp hsecond
  cases ha
  cases hb
  rw [hj] at hj'
  cases hj'
  have hend : j ≤ history.length := (position?_eq_some_iff.mp hj).1
  rw [exportCommits_of_positions hi hk (Nat.le_trans hij hjk)]
  exact congrArg Except.ok (drop_take_append_drop_take hij hjk hend).symm

/-- A depth trims what is exported without it, and a refusal does not depend on it. -/
theorem exportCommits_eq_map_trim (history : List CommitId) (branch : String) (base : TipRef)
    (target : Tip) (depth : Depth) :
    exportCommits history branch base target depth =
      (exportCommits history branch base target .unbounded).map depth.trim := by
  unfold exportCommits
  simp only [bind, Except.bind]
  cases resolve base with
  | error e => rfl
  | ok baseTip =>
    dsimp only
    cases position history branch baseTip with
    | error e => rfl
    | ok start =>
      dsimp only
      cases position history branch target with
      | error e => rfl
      | ok stop =>
        dsimp only
        by_cases horder : start > stop
        · rw [if_pos horder, if_pos horder]
          rfl
        · rw [if_neg horder, if_neg horder]
          rfl

variable {r : Repository}

/-- Two packs that meet in a tip, in a row, are the pack from the first tip to the last. -/
theorem exportPack_append {a b c : Tip} {first second : List UInt8}
    (hfirst : r.exportPack branch (.tip a) b .unbounded = .ok first)
    (hsecond : r.exportPack branch (.tip b) c .unbounded = .ok second) :
    r.exportPack branch (.tip a) c .unbounded = .ok (first ++ second) := by
  rw [exportPack_eq, map_eq_ok_iff] at hfirst hsecond
  obtain ⟨commits, hcommits, rfl⟩ := hfirst
  obtain ⟨more, hmore, rfl⟩ := hsecond
  rw [exportPack_eq, exportCommits_append hcommits hmore, ← Pack.encode_append]
  rfl

variable {base : TipRef} {target : Tip} {count : UInt32}

/-- A depth does not decide whether an export fails, nor how. -/
theorem exportPack_limited_eq_error_iff {e : RepositoryError} :
    r.exportPack branch base target (.limited count) = .error e ↔
      r.exportPack branch base target .unbounded = .error e := by
  rw [exportPack_eq, exportPack_eq, exportCommits_eq_map_trim, map_eq_error_iff, map_eq_error_iff,
    map_eq_error_iff]

/-- A depth keeps the most recent commits of a pack, as many as it says if there are as many. -/
theorem exportPack_limited_eq_ok_iff {sent : List UInt8} :
    r.exportPack branch base target (.limited count) = .ok sent ↔
      ∃ older recent,
        r.exportPack branch base target .unbounded = .ok (Pack.encode (older ++ recent)) ∧
          recent.length = min count.toNat (older ++ recent).length ∧ sent = Pack.encode recent := by
  simp only [exportPack_eq, exportCommits_eq_map_trim _ _ _ _ (.limited count), map_eq_ok_iff]
  constructor
  · intro h
    obtain ⟨kept, ⟨commits, hcommits, rfl⟩, rfl⟩ := h
    obtain ⟨⟨older, hsplit⟩, hlength⟩ := Depth.keeps_trim (.limited count) commits
    refine ⟨older, _, ⟨commits, hcommits, ?_⟩, ?_, rfl⟩
    · rw [hsplit]
    · rw [hsplit]
      exact hlength
  · intro h
    obtain ⟨older, recent, ⟨commits, hcommits, hpack⟩, hlength, rfl⟩ := h
    rw [Pack.encode_inj.mp hpack] at hcommits
    exact ⟨recent, ⟨older ++ recent, hcommits, Depth.trim_append hlength⟩, rfl⟩

/-- On every branch, exports without a depth that meet in a tip make up the export from the first tip
to the last. An export with a depth is refused exactly as the one without it is, and otherwise
consists of whole commits at the end of that one: as many as the depth says, or all. -/
theorem exports_compose_and_trim (r : Repository) (branch : String) :
    (∀ a b c first second, r.exportPack branch (.tip a) b .unbounded = .ok first →
      r.exportPack branch (.tip b) c .unbounded = .ok second →
        r.exportPack branch (.tip a) c .unbounded = .ok (first ++ second)) ∧
    ∀ base target count,
      (∀ e, r.exportPack branch base target (.limited count) = .error e ↔
        r.exportPack branch base target .unbounded = .error e) ∧
      ∀ sent, r.exportPack branch base target (.limited count) = .ok sent ↔
        ∃ older recent,
          r.exportPack branch base target .unbounded = .ok (Pack.encode (older ++ recent)) ∧
            recent.length = min count.toNat (older ++ recent).length ∧
            sent = Pack.encode recent := by
  refine ⟨?_, ?_⟩
  · intro a b c first second hfirst hsecond
    exact exportPack_append hfirst hsecond
  · intro base target count
    exact ⟨fun e => exportPack_limited_eq_error_iff, fun sent => exportPack_limited_eq_ok_iff⟩

/-- A repository whose branch has the same commit twice. -/
def returning : Repository :=
  empty.setHistory "main"
    [CommitId.uniform 1, CommitId.uniform 2, CommitId.uniform 1, CommitId.uniform 3]

/-- The exports up to the second commit and from there on are there, and so is the whole. -/
theorem returning_composes :
    returning.exportPack "main" (.tip .empty) (.commit (CommitId.uniform 2)) .unbounded =
        .ok (Pack.encode [CommitId.uniform 1, CommitId.uniform 2]) ∧
      returning.exportPack "main" (.tip (.commit (CommitId.uniform 2)))
          (.commit (CommitId.uniform 3)) .unbounded =
        .ok (Pack.encode [CommitId.uniform 1, CommitId.uniform 3]) ∧
      returning.exportPack "main" (.tip .empty) (.commit (CommitId.uniform 3)) .unbounded =
        .ok (Pack.encode [CommitId.uniform 1, CommitId.uniform 2] ++
          Pack.encode [CommitId.uniform 1, CommitId.uniform 3]) := by
  have hfirst : returning.exportPack "main" (.tip .empty) (.commit (CommitId.uniform 2)) .unbounded =
      .ok (Pack.encode [CommitId.uniform 1, CommitId.uniform 2]) := by
    rfl
  have hsecond : returning.exportPack "main" (.tip (.commit (CommitId.uniform 2)))
      (.commit (CommitId.uniform 3)) .unbounded =
      .ok (Pack.encode [CommitId.uniform 1, CommitId.uniform 3]) := by
    rfl
  exact ⟨hfirst, hsecond,
    (exports_compose_and_trim returning "main").1 _ _ _ _ _ hfirst hsecond⟩

end Repository

end BranchSync
