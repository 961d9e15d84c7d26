import BranchSync.Proofs.Checks
import BranchSync.Text.Base64

/-!
# Groups of base64 symbols

Three octets are four values of six bits, and what is left over at the end of an octet string is two
or three of them, with zeros in the bits that are not needed. A text is read in groups of four
octets; here is what each group has to look like to be accepted, and what it then stands for. A full
group consists of four symbols. The last group may be filled up, also in part, but only behind two
or three symbols whose unused bits are zero.
-/

namespace BranchSync.Text.Base64

/-! ### Symbols -/

/-- The symbol of a six-bit value has that value. -/
theorem value?_symbol (a : Alphabet) {v : Nat} (h : v < 64) : a.value? (a.symbol v) = some v := by
  revert v
  cases a with
  | standard => decide
  | urlSafe => decide

/-- No symbol is the filler. -/
theorem symbol_ne_filler (a : Alphabet) {v : Nat} (h : v < 64) : a.symbol v ≠ filler := by
  revert v
  cases a with
  | standard => decide
  | urlSafe => decide

/-- Symbols are single characters. -/
theorem symbol_toNat_lt (a : Alphabet) {v : Nat} (h : v < 64) : (a.symbol v).toNat < 128 := by
  revert v
  cases a with
  | standard => decide
  | urlSafe => decide

/-- An octet below 256 that has a value is the symbol of this value. -/
theorem symbol_value?_ofNat (a : Alphabet) {n : Nat} (h : n < 256) :
    (a.value? (UInt8.ofNat n)).all (fun v => v < 64 ∧ a.symbol v = UInt8.ofNat n) = true := by
  revert n
  cases a with
  | standard => decide +kernel
  | urlSafe => decide +kernel

/-- Only the symbol of a value has that value. -/
theorem eq_symbol_of_value? {a : Alphabet} {b : UInt8} {v : Nat} (h : a.value? b = some v) :
    v < 64 ∧ b = a.symbol v := by
  have hall := symbol_value?_ofNat a b.toNat_lt
  rw [UInt8.ofNat_toNat, h] at hall
  obtain ⟨hlt, hsymbol⟩ := of_decide_eq_true hall
  exact ⟨hlt, hsymbol.symm⟩

/-- An octet is read as a value exactly when it is the symbol of the value. -/
theorem symbolAt_eq_ok_iff {a : Alphabet} {offset : Nat} {b : UInt8} {v : Nat} :
    symbolAt a offset b = .ok v ↔ v < 64 ∧ b = a.symbol v := by
  unfold symbolAt
  constructor
  · intro h
    cases hvalue : a.value? b with
    | none => simp [hvalue] at h
    | some w =>
      simp only [hvalue, Except.ok.injEq] at h
      rw [← h]
      exact eq_symbol_of_value? hvalue
  · intro h
    rw [h.2, value?_symbol a h.1]

/-- Consecutive octets are read as values exactly when they are the symbols of the values. -/
theorem symbolsFrom_eq_ok_iff {a : Alphabet} {offset : Nat} {symbols : List UInt8}
    {values : List Nat} :
    symbolsFrom a offset symbols = .ok values ↔
      (∀ v ∈ values, v < 64) ∧ symbols = values.map a.symbol := by
  induction symbols generalizing offset values with
  | nil =>
    rw [symbolsFrom, Except.ok.injEq]
    constructor
    · intro h
      simp [← h]
    · intro h
      exact (List.map_eq_nil_iff.mp h.2.symm).symm
  | cons b rest ih =>
    simp only [symbolsFrom, bind_eq_ok_iff, pure_eq_ok_iff, symbolAt_eq_ok_iff, ih]
    constructor
    · rintro ⟨v, ⟨hv, rfl⟩, tail, ⟨htail, rfl⟩, rfl⟩
      exact ⟨List.forall_mem_cons.mpr ⟨hv, htail⟩, rfl⟩
    · intro h
      obtain ⟨hall, hsymbols⟩ := h
      obtain ⟨v, tail, rfl, rfl, rfl⟩ := List.map_eq_cons_iff.mp hsymbols.symm
      obtain ⟨hv, htail⟩ := List.forall_mem_cons.mp hall
      exact ⟨v, ⟨hv, rfl⟩, tail, ⟨htail, rfl⟩, rfl⟩

/-! ### Values of six bits -/

/-- The six-bit values that an octet string consists of, without filling. -/
def sextets : List UInt8 → List Nat
  | [] => []
  | [x] => [x.toNat / 4, x.toNat % 4 * 16]
  | [x, y] =>
    let v := x.toNat * 256 + y.toNat
    [v / 1024, v / 16 % 64, v % 16 * 4]
  | x :: y :: z :: rest =>
    let v := x.toNat * 65536 + y.toNat * 256 + z.toNat
    v / 262144 :: v / 4096 % 64 :: v / 64 % 64 :: v % 64 :: sextets rest

/-- The filling that a text may have behind so many symbols: none, or at most what its last group
lacks of four. -/
def Fits (count filling : Nat) : Prop :=
  filling = 0 ∨ count % 4 = 2 ∧ filling ≤ 2 ∨ count % 4 = 3 ∧ filling ≤ 1

/-- What the last group of so many symbols lacks of four. -/
def lacking (count : Nat) : Nat :=
  (4 - count % 4) % 4

/-- Values of six bits are below 64. -/
theorem sextets_lt (bytes : List UInt8) : ∀ v ∈ sextets bytes, v < 64 := by
  fun_induction sextets bytes with
  | case1 => exact List.forall_mem_nil _
  | case2 x =>
    have hx := x.toNat_lt
    simp only [List.forall_mem_cons]
    exact ⟨by omega, by omega, List.forall_mem_nil _⟩
  | case3 x y v =>
    have hx := x.toNat_lt
    have hy := y.toNat_lt
    simp only [List.forall_mem_cons]
    exact ⟨by omega, by omega, by omega, List.forall_mem_nil _⟩
  | case4 x y z rest v ih =>
    have hx := x.toNat_lt
    have hy := y.toNat_lt
    have hz := z.toNat_lt
    simp only [List.forall_mem_cons]
    exact ⟨by omega, by omega, by omega, by omega, ih⟩

/-- There are as many values as it takes to hold the bits of an octet string. -/
theorem length_sextets (bytes : List UInt8) :
    (sextets bytes).length = (8 * bytes.length + 5) / 6 := by
  fun_induction sextets bytes with
  | case1 => simp
  | case2 => simp
  | case3 => simp
  | case4 x y z rest v ih =>
    simp only [List.length_cons]
    omega

/-- What is written are the symbols of the values, and the filling that the last group lacks. -/
theorem encodeOctets_eq (bytes : List UInt8) :
    encodeOctets bytes = (sextets bytes).map Alphabet.standard.symbol ++
      List.replicate (lacking (sextets bytes).length) filler := by
  fun_induction sextets bytes with
  | case1 => rfl
  | case2 => rfl
  | case3 => rfl
  | case4 x y z rest v ih =>
    have hlacking : lacking (sextets rest).length = lacking ((sextets rest).length + 4) := by
      rw [lacking, lacking, Nat.add_mod_right]
    rw [encodeOctets, ih, hlacking]
    rfl

/-- Every three octets are written with four characters, and so are those that are left over. -/
theorem length_encodeOctets (bytes : List UInt8) :
    (encodeOctets bytes).length = 4 * ((bytes.length + 2) / 3) := by
  fun_induction encodeOctets bytes with
  | case1 => simp
  | case2 => simp
  | case3 => simp
  | case4 x y z rest v ih =>
    simp only [List.length_cons, ih]
    omega

/-- Everything that is written is a symbol of the standard alphabet or the filler. -/
theorem of_mem_encodeOctets {bytes : List UInt8} {b : UInt8} (h : b ∈ encodeOctets bytes) :
    (∃ v < 64, b = Alphabet.standard.symbol v) ∨ b = filler := by
  rw [encodeOctets_eq] at h
  rcases List.mem_append.mp h with hsymbol | hfilling
  · obtain ⟨v, hv, rfl⟩ := List.mem_map.mp hsymbol
    exact Or.inl ⟨v, sextets_lt bytes v hv, rfl⟩
  · exact Or.inr (List.eq_of_mem_replicate hfilling)

/-! ### Full groups -/

/-- The four values of a full group make up its three octets. -/
theorem groupOctets_eq (x y z : UInt8) :
    let v := x.toNat * 65536 + y.toNat * 256 + z.toNat
    let sum := v / 262144 * 262144 + v / 4096 % 64 * 4096 + v / 64 % 64 * 64 + v % 64
    [UInt8.ofNat (sum / 65536), UInt8.ofNat (sum / 256 % 256), UInt8.ofNat (sum % 256)] =
      [x, y, z] := by
  intro v sum
  have hx := x.toNat_lt
  have hy := y.toNat_lt
  have hz := z.toNat_lt
  have hsum : sum = v := by omega
  have hfirst : v / 65536 = x.toNat := by omega
  have hsecond : v / 256 % 256 = y.toNat := by omega
  have hthird : v % 256 = z.toNat := by omega
  rw [hsum, hfirst, hsecond, hthird, UInt8.ofNat_toNat, UInt8.ofNat_toNat, UInt8.ofNat_toNat]

/-- The three octets of a full group have its four values. -/
theorem sextets_groupOctets {w x y z : Nat} (hw : w < 64) (hx : x < 64) (hy : y < 64)
    (hz : z < 64) :
    let v := w * 262144 + x * 4096 + y * 64 + z
    sextets [UInt8.ofNat (v / 65536), UInt8.ofNat (v / 256 % 256), UInt8.ofNat (v % 256)] =
      [w, x, y, z] := by
  intro v
  have hfirst : v / 65536 % 256 = v / 65536 := by omega
  have hsum : v / 65536 * 65536 + v / 256 % 256 * 256 + v % 256 = v := by omega
  have hvalues : v / 262144 = w ∧ v / 4096 % 64 = x ∧ v / 64 % 64 = y ∧ v % 64 = z := by omega
  simp only [sextets, UInt8.toNat_ofNat', Nat.reducePow, Nat.mod_mod, hfirst, hsum, hvalues]

/-- A full group is read exactly when it consists of the symbols of three octets. -/
theorem decodeGroup_eq_ok_iff {a : Alphabet} {offset : Nat} {w x y z : UInt8}
    {head : List UInt8} :
    decodeGroup a offset w x y z = .ok head ↔
      ∃ p q r, head = [p, q, r] ∧ [w, x, y, z] = (sextets [p, q, r]).map a.symbol := by
  simp only [decodeGroup, bind_eq_ok_iff, pure_eq_ok_iff, symbolAt_eq_ok_iff]
  constructor
  · rintro ⟨w, ⟨hw, rfl⟩, x, ⟨hx, rfl⟩, y, ⟨hy, rfl⟩, z, ⟨hz, rfl⟩, rfl⟩
    refine ⟨_, _, _, rfl, ?_⟩
    rw [sextets_groupOctets hw hx hy hz]
    rfl
  · rintro ⟨p, q, r, rfl, hsymbols⟩
    obtain ⟨rfl, rfl, rfl, rfl⟩ : _ ∧ _ ∧ _ ∧ _ := by simpa [sextets] using hsymbols
    have hlt := sextets_lt [p, q, r]
    simp only [sextets, List.forall_mem_cons] at hlt
    obtain ⟨hw, hx, hy, hz, -⟩ := hlt
    exact ⟨_, ⟨hw, rfl⟩, _, ⟨hx, rfl⟩, _, ⟨hy, rfl⟩, _, ⟨hz, rfl⟩, groupOctets_eq p q r⟩

/-- Four symbols are read as the three octets that were written. -/
theorem decodeGroup_symbols (a : Alphabet) (offset : Nat) (x y z : UInt8) :
    let v := x.toNat * 65536 + y.toNat * 256 + z.toNat
    decodeGroup a offset (a.symbol (v / 262144)) (a.symbol (v / 4096 % 64))
      (a.symbol (v / 64 % 64)) (a.symbol (v % 64)) = .ok [x, y, z] :=
  decodeGroup_eq_ok_iff.mpr ⟨x, y, z, rfl, rfl⟩

/-! ### The last group -/

/-- The octets of a last group have its values, which are two, three or four. -/
theorem sextets_lastOctets {values : List Nat} (h : ∀ v ∈ values, v < 64) {last : UInt8}
    {lastOffset : Nat} {bytes : List UInt8}
    (hoctets : lastOctets last lastOffset values = .ok bytes) :
    sextets bytes = values ∧ 2 ≤ values.length ∧ values.length ≤ 4 := by
  fun_cases lastOctets last lastOffset values with
  | case1 w x y z v =>
    simp only [List.forall_mem_cons] at h
    obtain ⟨hw, hx, hy, hz, -⟩ := h
    cases hoctets
    exact ⟨sextets_groupOctets hw hx hy hz, by simp, by simp⟩
  | case2 w x y hlow => simp [lastOctets, hlow] at hoctets
  | case3 w x y hlow v =>
    simp only [List.forall_mem_cons] at h
    obtain ⟨hw, hx, hy, -⟩ := h
    have hlow : y % 4 = 0 := Decidable.not_not.mp hlow
    simp only [lastOctets, hlow, ne_eq, not_true, if_false] at hoctets
    cases hoctets
    refine ⟨?_, by simp, by simp⟩
    have hfirst : v / 256 % 256 = v / 256 := by omega
    have hsum : v / 256 * 256 + v % 256 = v := by omega
    have hvalues : v / 1024 = w ∧ v / 16 % 64 = x ∧ v % 16 * 4 = y := by omega
    change sextets [UInt8.ofNat (v / 256), UInt8.ofNat (v % 256)] = [w, x, y]
    simp only [sextets, UInt8.toNat_ofNat', Nat.reducePow, Nat.mod_mod, hfirst, hsum, hvalues]
  | case4 w x hlow => simp [lastOctets, hlow] at hoctets
  | case5 w x hlow =>
    simp only [List.forall_mem_cons] at h
    obtain ⟨hw, hx, -⟩ := h
    have hlow : x % 16 = 0 := Decidable.not_not.mp hlow
    simp only [lastOctets, hlow, ne_eq, not_true, if_false] at hoctets
    cases hoctets
    refine ⟨?_, by simp, by simp⟩
    have hfirst : (w * 4 + x / 16) % 256 = w * 4 + x / 16 := by omega
    have hvalues : (w * 4 + x / 16) / 4 = w ∧ (w * 4 + x / 16) % 4 * 16 = x := by omega
    simp only [sextets, UInt8.toNat_ofNat', Nat.reducePow, hfirst, hvalues]
  | case6 => simp [lastOctets] at hoctets

/-- The values of one to three octets are read as these octets. -/
theorem lastOctets_sextets {bytes : List UInt8} (hne : bytes ≠ []) (hlength : bytes.length ≤ 3)
    (last : UInt8) (lastOffset : Nat) : lastOctets last lastOffset (sextets bytes) = .ok bytes := by
  fun_cases sextets bytes with
  | case1 => exact absurd rfl hne
  | case2 x =>
    have hx := x.toNat_lt
    have hlow : x.toNat % 4 * 16 % 16 = 0 := by omega
    have hvalue : x.toNat / 4 * 4 + x.toNat % 4 * 16 / 16 = x.toNat := by omega
    change lastOctets last lastOffset [x.toNat / 4, x.toNat % 4 * 16] = .ok [x]
    rw [lastOctets, if_neg (not_not_intro hlow), hvalue, UInt8.ofNat_toNat]
  | case3 x y v =>
    have hx := x.toNat_lt
    have hy := y.toNat_lt
    have hlow : v % 16 * 4 % 4 = 0 := by omega
    have hsum : v / 1024 * 1024 + v / 16 % 64 * 16 + v % 16 * 4 / 4 = v := by omega
    have hfirst : v / 256 = x.toNat := by omega
    have hsecond : v % 256 = y.toNat := by omega
    change lastOctets last lastOffset [v / 1024, v / 16 % 64, v % 16 * 4] = .ok [x, y]
    rw [lastOctets, if_neg (not_not_intro hlow)]
    simp only [hsum, hfirst, hsecond, UInt8.ofNat_toNat]
  | case4 x y z rest v =>
    have hrest : rest = [] := by
      apply List.length_eq_zero_iff.mp
      simp only [List.length_cons] at hlength
      omega
    rw [hrest]
    exact congrArg Except.ok (groupOctets_eq x y z)

/-- A last group that consists of symbols and filler is cut between them. -/
theorem cut_at_filler (a : Alphabet) {values : List Nat} (h : ∀ v ∈ values, v < 64) (count : Nat) :
    (values.map a.symbol ++ List.replicate count filler).takeWhile (· ≠ filler) =
        values.map a.symbol ∧
      (values.map a.symbol ++ List.replicate count filler).dropWhile (· ≠ filler) =
        List.replicate count filler := by
  induction values with
  | nil => cases count <;> simp [List.replicate_succ]
  | cons v rest ih =>
    have hne := symbol_ne_filler a (h v List.mem_cons_self)
    obtain ⟨htake, hdrop⟩ := ih fun v' hv' => h v' (List.mem_cons_of_mem v hv')
    rw [List.map_cons, List.cons_append, List.takeWhile_cons_of_pos (by simpa using hne),
      List.dropWhile_cons_of_pos (by simpa using hne), htake, hdrop]
    exact ⟨rfl, rfl⟩

/-- The filling of a last group is accepted exactly when there is none, or it stands behind two
symbols or more and holds nothing else. -/
theorem checkFilling_eq_ok_iff {offset count : Nat} {filling : List UInt8} {u : Unit} :
    checkFilling offset count filling = .ok u ↔
      filling = [] ∨ 2 ≤ count ∧ filling = List.replicate filling.length filler := by
  have hall : filling = List.replicate filling.length filler ↔ ∀ b ∈ filling, b = filler := by
    rw [List.eq_replicate_iff, and_iff_right rfl]
  unfold checkFilling
  rw [hall]
  by_cases hnil : filling = []
  · simp [hnil]
  · by_cases hcount : count < 2
    · simp [hnil, hcount, Nat.not_le_of_lt hcount]
    · simp [hnil, hcount, Nat.le_of_not_lt hcount]

/-- A last group that is read consists of the symbols of one to three octets and of filling that
fits. -/
theorem eq_of_decodeLast {a : Alphabet} {offset : Nat} {group bytes : List UInt8}
    (hlength : group.length ≤ 4) (h : decodeLast a offset group = .ok bytes) :
    bytes.length ≤ 3 ∧ ∃ k, Fits (sextets bytes).length k ∧
      group = (sextets bytes).map a.symbol ++ List.replicate k filler := by
  simp only [decodeLast, bind_eq_ok_iff, symbolsFrom_eq_ok_iff, checkFilling_eq_ok_iff] at h
  obtain ⟨values, ⟨hlt, hsymbols⟩, -, hfilling, hread⟩ := h
  have hgroup : group = values.map a.symbol ++ group.dropWhile (· ≠ filler) := by
    rw [← hsymbols]
    exact List.takeWhile_append_dropWhile.symm
  generalize group.dropWhile (· ≠ filler) = filling at hfilling hgroup
  split at hread
  · cases hread
  · obtain ⟨hvalues, htwo, hfour⟩ := sextets_lastOctets hlt hread
    have hcount := length_sextets bytes
    rw [hvalues] at hcount
    rw [hgroup, List.length_append, List.length_map] at hlength
    refine ⟨by omega, filling.length, ?_, ?_⟩
    · rw [hvalues, Fits]
      have hcases : values.length = 2 ∨ values.length = 3 ∨ values.length = 4 := by omega
      rcases hcases with hsize | hsize | hsize
      · omega
      · omega
      · omega
    · rw [hvalues, hgroup]
      rcases hfilling with rfl | ⟨-, hall⟩
      · rfl
      · rw [← hall]

/-- The symbols of one to three octets, with filling that fits, are read as these octets. -/
theorem decodeLast_symbols (a : Alphabet) (offset : Nat) {bytes : List UInt8} (hne : bytes ≠ [])
    (hlength : bytes.length ≤ 3) (k : Nat) :
    decodeLast a offset ((sextets bytes).map a.symbol ++ List.replicate k filler) = .ok bytes := by
  have hlt := sextets_lt bytes
  have hcount : 2 ≤ (sextets bytes).length := by
    have hpos := List.length_pos_iff.mpr hne
    rw [length_sextets]
    omega
  obtain ⟨htake, hdrop⟩ := cut_at_filler a hlt k
  simp only [decodeLast, bind_eq_ok_iff]
  rw [htake, hdrop]
  refine ⟨_, symbolsFrom_eq_ok_iff.mpr ⟨hlt, rfl⟩, (), ?_, ?_⟩
  · apply checkFilling_eq_ok_iff.mpr
    rw [List.length_replicate]
    exact Or.inr ⟨hcount, rfl⟩
  · rw [if_neg (Nat.not_lt.mpr hcount)]
    exact lastOctets_sextets hne hlength _ _

end BranchSync.Text.Base64
