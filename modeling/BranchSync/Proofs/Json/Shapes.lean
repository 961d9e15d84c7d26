import BranchSync.Json.Shape
import BranchSync.Principal
import BranchSync.Table

/-!
# Reading back the parts of documents

What a list, a number, an optional value or the fields of an object is written as is read as the
same, provided its parts are. A table and a set of grants are written entry by entry, in the order
that they keep, and rebuilt by inserting the entries one by one; each then goes to the end.
-/

namespace BranchSync

/-! ### Tables and sets of grants -/

namespace Table

variable {β : Type}

/-- A value under a new key goes to the end. -/
theorem put_of_not_mem {key : String} {value : β} {entries : List (String × β)}
    (h : key ∉ keysOf entries) : put key value entries = entries ++ [(key, value)] := by
  induction entries with
  | nil => rfl
  | cons e rest ih =>
    obtain ⟨k, v⟩ := e
    obtain ⟨hk, hrest⟩ := not_or.mp (mt List.mem_cons.mpr h)
    rw [put, if_neg (Ne.symm hk), ih hrest]
    rfl

/-- Entries under new, distinct keys are appended in order. -/
theorem entries_foldl_insert (t : Table β) (entries : List (String × β))
    (h : (keysOf (t.entries ++ entries)).Nodup) :
    (entries.foldl (fun t e => t.insert e.1 e.2) t).entries = t.entries ++ entries := by
  induction entries generalizing t with
  | nil => simp
  | cons e rest ih =>
    have hnew : e.1 ∉ keysOf t.entries := by
      intro hmem
      rw [keysOf, List.map_append, List.map_cons, List.nodup_append] at h
      exact h.2.2 e.1 hmem e.1 List.mem_cons_self rfl
    have hentries : (t.insert e.1 e.2).entries = t.entries ++ [e] := put_of_not_mem hnew
    rw [List.foldl_cons, ih, hentries, List.append_assoc]
    · rfl
    · rw [hentries, List.append_assoc]
      exact h

/-- A table is rebuilt from its entries. -/
theorem ofList_entries (t : Table β) : ofList t.entries = t := by
  have hentries : (ofList t.entries).entries = t.entries :=
    entries_foldl_insert empty t.entries t.nodup
  cases hlist : ofList t.entries with
  | mk entries nodup =>
    rw [hlist] at hentries
    cases t
    cases hentries
    rfl

end Table

namespace TokenSet

/-- A grant that comes after all others goes to the end. -/
theorem place_of_forall_lt {token : AccessToken} {tokens : List AccessToken}
    (h : ∀ t ∈ tokens, t.text < token.text) : place token tokens = tokens ++ [token] := by
  induction tokens with
  | nil => rfl
  | cons t rest ih =>
    have ht : t.text < token.text := h t List.mem_cons_self
    have hne : token ≠ t := by
      intro hsame
      rw [hsame] at ht
      exact String.lt_irrefl _ ht
    have hnot : ¬ token.text < t.text := fun hlt => String.lt_irrefl _ (String.lt_trans hlt ht)
    rw [place, if_neg hnot, if_neg hne, ih fun t' ht' => h t' (List.mem_cons_of_mem t ht')]
    rfl

/-- Grants that come after all others, in increasing order, are appended. -/
theorem tokens_foldl_insert (s : TokenSet) (tokens : List AccessToken)
    (h : Increasing (s.tokens ++ tokens)) :
    (tokens.foldl insert s).tokens = s.tokens ++ tokens := by
  induction tokens generalizing s with
  | nil => simp
  | cons token rest ih =>
    have hlast : ∀ t ∈ s.tokens, t.text < token.text := fun t ht =>
      (List.pairwise_append.mp h).2.2 t ht token List.mem_cons_self
    have htokens : (s.insert token).tokens = s.tokens ++ [token] := place_of_forall_lt hlast
    rw [List.foldl_cons, ih, htokens, List.append_assoc]
    · rfl
    · rw [htokens, List.append_assoc]
      exact h

/-- A set of grants is rebuilt from its grants. -/
theorem ofList_tokens (s : TokenSet) : ofList s.tokens = s := by
  have htokens : (ofList s.tokens).tokens = s.tokens :=
    tokens_foldl_insert empty s.tokens s.increasing
  cases hlist : ofList s.tokens with
  | mk tokens increasing =>
    rw [hlist] at htokens
    cases s
    cases htokens
    rfl

end TokenSet

/-! ### Documents -/

namespace Json

variable {α : Type} {decode : Decoder α} {encode : α → Json}

/-- A text is read back. -/
theorem asString_string (s : String) : asString (.string s) = some s :=
  rfl

/-- A number below the bound is read back. -/
theorem asNatBelow_ofNat {bound n : Nat} (h : n < bound) : asNatBelow bound (.ofNat n) = some n := by
  simp [asNatBelow, ofNat, h]

/-- An octet is read back. -/
theorem asUInt8_ofNat (n : UInt8) : asUInt8 (.ofNat n.toNat) = some n := by
  rw [asUInt8, asNatBelow_ofNat n.toNat_lt, Option.map_some, UInt8.ofNat_toNat]

/-- A number below 2^32 is read back. -/
theorem asUInt32_ofNat (n : UInt32) : asUInt32 (.ofNat n.toNat) = some n := by
  rw [asUInt32, asNatBelow_ofNat n.toNat_lt, Option.map_some, UInt32.ofNat_toNat]

/-- A number below 2^64 is read back. -/
theorem asUInt64_ofNat (n : UInt64) : asUInt64 (.ofNat n.toNat) = some n := by
  rw [asUInt64, asNatBelow_ofNat n.toNat_lt, Option.map_some, UInt64.ofNat_toNat]

/-- A list is read back if its entries are. -/
theorem asList_map (h : ∀ a, decode (encode a) = some a) (values : List α) :
    asList decode (.array (values.map encode)) = some values := by
  rw [asList]
  induction values with
  | nil => rfl
  | cons a rest ih => rw [List.map_cons, eachOf, h, ih]; rfl

/-- An optional value is read back if its value is and is not written as null. -/
theorem asOption_ofOption (h : ∀ a, decode (encode a) = some a) (hnull : ∀ a, encode a ≠ .null)
    (value : Option α) : asOption decode (ofOption encode value) = some value := by
  cases value with
  | none => rfl
  | some a =>
    rw [ofOption, asOption, h, Option.map_some]
    exact hnull a

/-- The fields of an object are read back if their values are. -/
theorem eachField_map (h : ∀ a, decode (encode a) = some a) (fields : List (String × α)) :
    eachField decode (fields.map fun f => (f.1, encode f.2)) = some fields := by
  induction fields with
  | nil => rfl
  | cons f rest ih => rw [List.map_cons, eachField, h, ih]; rfl

end Json

end BranchSync
