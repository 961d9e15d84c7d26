import BranchSync.Net.SocketAddress
import BranchSync.Proofs.Text.Numbers

/-!
# Reading back addresses

The canonical text of an address is read as the address. For groups of an IPv6 address, what matters
is how the text goes on: with neither a digit, nor a dot, nor a colon and another group. Then the
groups are read up to there, and none of them is taken for the beginning of an IPv4 address. The left
out run of zeros is at least two groups long, so the groups after it fit behind those before it.
-/

namespace BranchSync.Net

open Text.Scan

variable {rest : List Char}

/-- Every octet can be written. -/
theorem octetForm_roomy : octetForm.Roomy := by
  refine ⟨by decide, by decide, ?_⟩
  intro max h
  cases h
  decide

/-- Every group can be written. -/
theorem groupForm_roomy : groupForm.Roomy := by
  refine ⟨by decide, by decide, ?_⟩
  intro max h
  cases h
  decide

namespace Ipv4

/-- The characters of an IPv4 address. -/
theorem toList_display (ip : Ipv4) :
    ip.display.toList = Nat.toDigits 10 ip.a.toNat ++ '.' :: (Nat.toDigits 10 ip.b.toNat ++
      '.' :: (Nat.toDigits 10 ip.c.toNat ++ '.' :: Nat.toDigits 10 ip.d.toNat)) := by
  have hdot : (toString ".").toList = ['.'] := rfl
  simp [display, Nat.toString_eq_repr, Nat.toList_repr, hdot]

/-- An octet is read up to what is no digit. -/
theorem number_octet (b : UInt8) (hrest : NoDigit 10 rest) :
    number octetForm (Nat.toDigits 10 b.toNat ++ rest) = some (b.toNat, rest) :=
  octetForm_roomy.number_toDigits b.toNat_lt hrest

/-- An IPv4 address is read back. -/
theorem read_display (ip : Ipv4) (hrest : NoDigit 10 rest) :
    read (ip.display.toList ++ rest) = some (ip, rest) := by
  have hdot (more : List Char) : NoDigit 10 ('.' :: more) := noDigit_cons_iff.mpr (by decide)
  unfold read
  simp only [toList_display, List.append_assoc, List.cons_append, number_octet _ (hdot _),
    number_octet _ hrest, char, if_true, Option.bind_eq_bind, Option.bind_some, Option.pure_def,
    UInt8.ofNat_toNat]

/-- No IPv4 address is read from a text whose first number is not followed by a dot. -/
theorem read_eq_none {input : List Char}
    (h : ∀ n more, number octetForm input = some (n, more) → more.head? ≠ some '.') :
    read input = none := by
  unfold read
  cases hnumber : number octetForm input with
  | none => rfl
  | some found =>
    obtain ⟨n, more⟩ := found
    have hdot : char '.' more = none := by
      have hhead := h n more hnumber
      cases more with
      | nil => rfl
      | cons c more =>
        have hne : c ≠ '.' := by simpa using hhead
        rw [char, if_neg hne]
    simp only [Option.bind_eq_bind, Option.bind_some, hdot, Option.bind_none]

/-- No IPv4 address is read from a text that does not begin with a digit. -/
theorem read_of_noDigit {input : List Char} (h : NoDigit 10 input) : read input = none := by
  refine read_eq_none fun n more hnumber => ?_
  have hnone : number octetForm input = none := number_eq_none h
  rw [hnone] at hnumber
  cases hnumber

end Ipv4

/-- No IPv4 address begins with a group that is not followed by a dot. -/
theorem Ipv4.read_group (group : UInt16) (hdigit : NoDigit 16 rest) (hdot : rest.head? ≠ some '.') :
    read (Nat.toDigits 16 group.toNat ++ rest) = none := by
  refine read_eq_none fun n more h => ?_
  have hnot : '.' ∉ Nat.toDigits 16 group.toNat := by
    intro hmem
    have hisDigit := isDigit_of_mem_toDigits (by omega) (by omega) _ '.' hmem
    exact absurd hisDigit (by decide)
  rw [eq_dropWhile_of_number h]
  exact head?_dropWhile_ne hnot (noDigit_of_le (by decide) hdigit) hdot

namespace Ipv6

/-- A text does not go on with a group of an IPv6 address, nor with what makes a number part of an
IPv4 address. -/
structure EndsGroups (rest : List Char) : Prop where
  noDigit : NoDigit 16 rest
  noDot : rest.head? ≠ some '.'
  noGroup : ∀ more, rest = ':' :: more → NoDigit 16 more

/-- The characters of groups, with a colon before every group but the first. -/
def spell (first : Bool) : List UInt16 → List Char
  | [] => []
  | group :: rest =>
    (if first then [] else [':']) ++ (Nat.toDigits 16 group.toNat ++ spell false rest)

/-- The characters of groups that are joined by colons. -/
theorem toList_displayGroups (groups : List UInt16) :
    (displayGroups groups).toList = spell true groups := by
  have hgroup (group : UInt16) : (displayGroup group).toList = Nat.toDigits 16 group.toNat :=
    String.toList_ofList
  rw [displayGroups, String.toList_intercalate]
  induction groups with
  | nil => rfl
  | cons group rest ih =>
    cases rest with
    | nil => simp [spell, hgroup]
    | cons next rest =>
      rw [List.map_cons, List.map_cons, List.map_cons, List.map_cons, List.intercalate_cons_cons,
        ← List.map_cons, ← List.map_cons, ih, hgroup]
      simp [spell]

/-- The separator is read where it is due. -/
theorem separator_append (first : Bool) (input : List Char) :
    separator first ((if first then [] else [':']) ++ input) = some ((), input) := by
  cases first <;> rfl

/-- Where the groups end, nothing is read that begins with a digit. -/
theorem EndsGroups.separator_bind {α : Type} (h : EndsGroups rest) (first : Bool)
    (next : List Char → Option α) (hnext : ∀ input, NoDigit 16 input → next input = none) :
    (do let ((), input) ← separator first rest; next input) = none := by
  cases first with
  | true => exact hnext rest h.noDigit
  | false =>
    cases rest with
    | nil => rfl
    | cons c more =>
      by_cases hc : c = ':'
      · subst hc
        exact hnext more (h.noGroup more rfl)
      · simp [separator, char, hc]

/-- What follows a group, another group or the end, is neither a digit nor a dot. -/
theorem EndsGroups.after_group (h : EndsGroups rest) (groups : List UInt16) :
    NoDigit 16 (spell false groups ++ rest) ∧ (spell false groups ++ rest).head? ≠ some '.' := by
  cases groups with
  | nil => exact ⟨h.noDigit, h.noDot⟩
  | cons group groups =>
    have hcolon : NoDigit 16 (':' :: (Nat.toDigits 16 group.toNat ++ spell false groups ++ rest)) :=
      noDigit_cons_iff.mpr (by decide)
    simpa [spell] using hcolon

/-- A group is read up to what is no digit. -/
theorem number_group (group : UInt16) (hrest : NoDigit 16 rest) :
    number groupForm (Nat.toDigits 16 group.toNat ++ rest) = some (group.toNat, rest) :=
  groupForm_roomy.number_toDigits group.toNat_lt hrest

/-- Groups are read up to where they end, if there is room for them. -/
theorem readGroups_spell (h : EndsGroups rest) (groups : List UInt16) (first : Bool) (room : Nat)
    (hroom : groups.length ≤ room) :
    readGroups first room (spell first groups ++ rest) = (groups, false, rest) := by
  induction groups generalizing first room with
  | nil =>
    cases room with
    | zero => rfl
    | succ room =>
      have hip := h.separator_bind first Ipv4.read fun input hinput =>
        Ipv4.read_of_noDigit (noDigit_of_le (by omega) hinput)
      have hgroup := h.separator_bind first (number groupForm) fun input hinput =>
        number_eq_none hinput
      rw [spell, List.nil_append, readGroups, hip, hgroup, ite_self]
  | cons group groups ih =>
    cases room with
    | zero => simp at hroom
    | succ room =>
      obtain ⟨hdigit, hdot⟩ := h.after_group groups
      have hread := number_group group hdigit
      have hrest := ih false room (Nat.le_of_succ_le_succ hroom)
      rw [spell, List.append_assoc, List.append_assoc, readGroups]
      simp only [separator_append, Option.bind_eq_bind, Option.bind_some,
        Ipv4.read_group group hdigit hdot, ite_self, hread, hrest, UInt16.ofNat_toNat]

/-- The zeros at the front of a list of groups. -/
theorem take_leadingZeros (groups : List UInt16) :
    groups.take (leadingZeros groups) = List.replicate (leadingZeros groups) 0 := by
  induction groups with
  | nil => rfl
  | cons group rest ih =>
    unfold leadingZeros at ih ⊢
    by_cases hzero : group = 0
    · subst hzero
      rw [List.takeWhile_cons_of_pos (by rfl), List.length_cons, List.take_succ_cons, ih,
        List.replicate_succ]
    · rw [List.takeWhile_cons_of_neg (by simpa using hzero)]
      rfl

/-- The longest run of zeros lies among the groups and consists of zeros. -/
theorem longestZeroRun_spec (start : Nat) (groups : List UInt16) :
    ∃ before after, groups = before ++ List.replicate (longestZeroRun start groups).2 0 ++ after ∧
      (longestZeroRun start groups).1 = start + before.length := by
  induction groups generalizing start with
  | nil => exact ⟨[], [], rfl, rfl⟩
  | cons group rest ih =>
    rw [longestZeroRun]
    split
    · obtain ⟨before, after, hsplit, hstart⟩ := ih (start + 1)
      refine ⟨group :: before, after, congrArg (group :: ·) hsplit, ?_⟩
      rw [hstart, List.length_cons]
      omega
    · refine ⟨[], (group :: rest).drop (leadingZeros (group :: rest)), ?_, rfl⟩
      rw [List.nil_append, ← take_leadingZeros, List.take_append_drop]

/-- The groups of an address are found in its parts around a run of zeros. -/
theorem ofParts?_eq {ip : Ipv6} {head tail : List UInt16} (zeros : Nat)
    (h : ip.groups = head ++ List.replicate zeros 0 ++ tail) : ofParts? head tail = some ip := by
  have hlength := ip.length_groups
  rw [h] at hlength
  have hzeros : groupCount - head.length - tail.length = zeros := by
    rw [← hlength]
    simp only [List.length_append, List.length_replicate]
    omega
  unfold ofParts?
  rw [hzeros, ← h]
  exact dif_pos ip.length_groups

/-- Groups end before two colons. -/
theorem endsGroups_colons (more : List Char) : EndsGroups (':' :: ':' :: more) where
  noDigit := noDigit_cons_iff.mpr (by decide)
  noDot := by simp
  noGroup := by
    intro later h
    rw [← (List.cons.inj h).2]
    exact noDigit_cons_iff.mpr (by decide)

/-- The groups around a run of zeros that is left out are read as the address. -/
theorem read_spell (h : EndsGroups rest) {ip : Ipv6} {before after : List UInt16} {zeros : Nat}
    (hgroups : ip.groups = before ++ List.replicate zeros 0 ++ after) (hzeros : 1 < zeros) :
    read (spell true before ++ ':' :: ':' :: (spell true after ++ rest)) = some (ip, rest) := by
  have hlength := ip.length_groups
  rw [hgroups] at hlength
  simp only [List.length_append, List.length_replicate] at hlength
  have hbefore := readGroups_spell (endsGroups_colons (spell true after ++ rest)) before true
    groupCount (by omega)
  have hafter := readGroups_spell h after true (groupCount - (before.length + 1)) (by omega)
  unfold read
  simp only [hbefore, if_neg (show before.length ≠ groupCount by omega), Bool.false_eq_true,
    if_false, char, if_true, Option.bind_eq_bind, Option.bind_some, hafter, ofParts?_eq zeros hgroups,
    Option.map_some]

/-- The groups that an IPv4 address stands for are shown as that address. -/
theorem groups_ofGroups (high low : UInt16) : (Ipv4.ofGroups high low).groups = [high, low] := by
  have hword (word : UInt16) :
      UInt16.ofNat ((UInt8.ofNat (word.toNat / 256)).toNat * 256 +
        (UInt8.ofNat (word.toNat % 256)).toNat) = word := by
    have hword := word.toNat_lt
    have hvalue : word.toNat / 256 * 256 + word.toNat % 256 = word.toNat := by omega
    rw [UInt8.toNat_ofNat', UInt8.toNat_ofNat', Nat.mod_eq_of_lt (by omega),
      Nat.mod_eq_of_lt (by omega), hvalue, UInt16.ofNat_toNat]
  rw [Ipv4.ofGroups, Ipv4.groups, hword, hword]

/-- An IPv4 address at the end of an IPv6 address is read as its last groups. -/
theorem readGroups_embedded (group : UInt16) (ip : Ipv4) (hrest : NoDigit 10 rest) (room : Nat)
    (hroom : 1 < room) :
    readGroups true (room + 1) (Nat.toDigits 16 group.toNat ++ ':' :: (ip.display.toList ++ rest)) =
      (group :: ip.groups, true, rest) := by
  have hcolon : NoDigit 16 (':' :: (ip.display.toList ++ rest)) :=
    noDigit_cons_iff.mpr (by decide)
  have hembedded : readGroups false room (':' :: (ip.display.toList ++ rest)) =
      (ip.groups, true, rest) := by
    cases room with
    | zero => omega
    | succ room =>
      simp only [readGroups, if_neg (show room ≠ 0 by omega), separator, Bool.false_eq_true,
        if_false, char, if_true, Option.bind_eq_bind, Option.bind_some,
        Ipv4.read_display ip hrest]
  simp only [readGroups, separator, if_true, Option.bind_eq_bind, Option.bind_some,
    Ipv4.read_group group hcolon (by simp), ite_self, number_group group hcolon, hembedded,
    UInt16.ofNat_toNat]

/-- The characters of an address that shows an IPv4 address. -/
theorem toList_mapped (text : String) :
    ("::ffff:" ++ text).toList =
      ':' :: ':' :: (Nat.toDigits 16 (0xffff : UInt16).toNat ++ ':' :: text.toList) := by
  have hdigits : Nat.toDigits 16 (0xffff : UInt16).toNat = ['f', 'f', 'f', 'f'] := by decide
  rw [hdigits]
  simp

/-- An address that stands for an IPv4 address and shows it is read back. -/
theorem read_mapped (h : EndsGroups rest) {ip : Ipv6} {high low : UInt16}
    (hgroups : ip.groups = [0, 0, 0, 0, 0, 0xffff, high, low]) :
    read (':' :: ':' :: (Nat.toDigits 16 (0xffff : UInt16).toNat ++
      ':' :: ((Ipv4.ofGroups high low).display.toList ++ rest))) = some (ip, rest) := by
  have hip := readGroups_embedded 0xffff (Ipv4.ofGroups high low)
    (noDigit_of_le (by omega) h.noDigit) 6 (by omega)
  have hnone := readGroups_spell (endsGroups_colons (Nat.toDigits 16 (0xffff : UInt16).toNat ++
    ':' :: ((Ipv4.ofGroups high low).display.toList ++ rest))) [] true groupCount
    (Nat.zero_le _)
  have hparts : ofParts? [] (0xffff :: (Ipv4.ofGroups high low).groups) = some ip := by
    refine ofParts?_eq 5 ?_
    rw [groups_ofGroups, hgroups]
    rfl
  rw [spell, List.nil_append] at hnone
  unfold read
  simp only [hnone, List.length_nil, if_neg (show 0 ≠ groupCount by decide), Bool.false_eq_true,
    if_false, char, if_true, Option.bind_eq_bind, Option.bind_some]
  rw [show groupCount - (0 + 1) = 6 + 1 from rfl, hip]
  simp only [hparts, Option.map_some]

/-- Eight groups are read as the address. -/
theorem read_groups (h : EndsGroups rest) (ip : Ipv6) :
    read (spell true ip.groups ++ rest) = some (ip, rest) := by
  have hgroups := readGroups_spell h ip.groups true groupCount (Nat.le_of_eq ip.length_groups)
  have hparts : ofParts? ip.groups [] = some ip := ofParts?_eq 0 (by simp)
  unfold read
  simp only [hgroups, if_pos ip.length_groups, hparts, Option.map_some]

/-- An IPv6 address is read back. -/
theorem read_display (ip : Ipv6) (h : EndsGroups rest) :
    read (ip.display.toList ++ rest) = some (ip, rest) := by
  unfold display
  split
  · rename_i high low hgroups
    rw [toList_mapped]
    simp only [List.cons_append, List.append_assoc]
    exact read_mapped h hgroups
  · obtain ⟨before, after, hsplit, hstart⟩ := longestZeroRun_spec 0 ip.groups
    rw [Nat.zero_add] at hstart
    dsimp only
    split
    · rename_i hlong
      have htake : ip.groups.take (longestZeroRun 0 ip.groups).1 = before := by
        rw [hstart, hsplit, List.append_assoc, List.take_left' rfl]
      have hdrop : ip.groups.drop ((longestZeroRun 0 ip.groups).1 +
          (longestZeroRun 0 ip.groups).2) = after := by
        rw [hstart]
        generalize (longestZeroRun 0 ip.groups).2 = zeros at hsplit
        rw [hsplit, List.drop_left' (by simp)]
      rw [htake, hdrop, String.toList_append, String.toList_append, toList_displayGroups,
        toList_displayGroups]
      have hread := read_spell h hsplit hlong
      simpa using hread
    · rw [toList_displayGroups]
      exact read_groups h ip

end Ipv6

namespace SocketAddress

/-- Every service can be written. -/
theorem serviceForm_roomy : serviceForm.Roomy :=
  ⟨by decide, by decide, fun max h => by cases h⟩

/-- Every zone can be written. -/
theorem zoneForm_roomy : zoneForm.Roomy :=
  ⟨by decide, by decide, fun max h => by cases h⟩

/-- A service at the end of a text is read back. -/
theorem readService_display (service : UInt16) :
    readService (':' :: Nat.toDigits 10 service.toNat) = some (service, []) := by
  have hread : number serviceForm (Nat.toDigits 10 service.toNat ++ []) =
      some (service.toNat, []) :=
    serviceForm_roomy.number_toDigits service.toNat_lt (noDigit_nil 10)
  rw [List.append_nil] at hread
  unfold readService
  simp only [char, if_true, Option.bind_eq_bind, Option.bind_some, hread, Option.pure_def,
    UInt16.ofNat_toNat]

/-- The characters of a zone, which is not written if it is zero. -/
def spellZone (zone : UInt32) : List Char :=
  if zone = 0 then [] else '%' :: Nat.toDigits 10 zone.toNat

/-- A zone is read up to the closing bracket; without one, it is zero. -/
theorem readZone_spellZone (zone : UInt32) :
    (readZone (spellZone zone ++ ']' :: rest)).getD (0, spellZone zone ++ ']' :: rest) =
      (zone, ']' :: rest) := by
  unfold spellZone
  by_cases hzero : zone = 0
  · rw [if_pos hzero, hzero]
    rfl
  · have hread : number zoneForm (Nat.toDigits 10 zone.toNat ++ ']' :: rest) =
        some (zone.toNat, ']' :: rest) :=
      zoneForm_roomy.number_toDigits zone.toNat_lt (noDigit_cons_iff.mpr (by decide))
    rw [if_neg hzero, List.cons_append]
    unfold readZone
    simp only [char, if_true, Option.bind_eq_bind, Option.bind_some, hread, Option.pure_def,
      UInt32.ofNat_toNat, Option.getD_some]

/-- Groups end before a zone and before the closing bracket. -/
theorem endsGroups_spellZone (zone : UInt32) (rest : List Char) :
    Ipv6.EndsGroups (spellZone zone ++ ']' :: rest) := by
  have hcons {c : Char} {more : List Char} (hdigit : isDigit 16 c = false) (hdot : c ≠ '.')
      (hcolon : c ≠ ':') : Ipv6.EndsGroups (c :: more) :=
    ⟨noDigit_cons_iff.mpr hdigit, by simpa using hdot,
      fun later h => absurd (List.cons.inj h).1 hcolon⟩
  unfold spellZone
  split
  · exact hcons (by decide) (by decide) (by decide)
  · exact hcons (by decide) (by decide) (by decide)

/-- A text that begins with a bracket is no IPv4 address. -/
theorem readV4_bracket : readV4 ('[' :: rest) = none := by
  have hnone : Ipv4.read ('[' :: rest) = none :=
    Ipv4.read_of_noDigit (noDigit_cons_iff.mpr (by decide))
  unfold readV4
  simp only [hnone, Option.bind_eq_bind, Option.bind_none]

/-- The characters of an IPv4 address with a service. -/
theorem toList_display_v4 (ip : Ipv4) (service : UInt16) :
    (display (.v4 ip service)).toList =
      ip.display.toList ++ ':' :: Nat.toDigits 10 service.toNat := by
  change (ip.display ++ ":" ++ service.toNat.repr).toList = _
  simp [Nat.toList_repr]

/-- The characters of an IPv6 address with a service. -/
theorem toList_display_v6 (ip : Ipv6) (service : UInt16) (zone : UInt32) :
    (display (.v6 ip service zone)).toList = '[' :: (ip.display.toList ++
      (spellZone zone ++ ']' :: ':' :: Nat.toDigits 10 service.toNat)) := by
  by_cases hzero : zone = 0
  · rw [display, if_pos hzero, spellZone, if_pos hzero]
    change ("[" ++ ip.display ++ "]:" ++ service.toNat.repr).toList = _
    simp [Nat.toList_repr]
  · rw [display, if_neg hzero, spellZone, if_neg hzero]
    change ("[" ++ ip.display ++ "%" ++ zone.toNat.repr ++ "]:" ++ service.toNat.repr).toList = _
    simp [Nat.toList_repr]

/-- The canonical text of a socket address is read as the address. -/
theorem ofText?_display (address : SocketAddress) : ofText? address.display = some address := by
  cases address with
  | v4 ip service =>
    have hservice : NoDigit 10 (':' :: Nat.toDigits 10 service.toNat) :=
      noDigit_cons_iff.mpr (by decide)
    have hip := ip.read_display hservice
    have hread : readV4 (display (.v4 ip service)).toList = some (.v4 ip service, []) := by
      unfold readV4
      simp only [toList_display_v4, hip, Option.bind_eq_bind, Option.bind_some,
        readService_display, Option.pure_def]
    unfold ofText?
    rw [hread, Option.some_or]
  | v6 ip service zone =>
    have hip := ip.read_display
      (endsGroups_spellZone zone (':' :: Nat.toDigits 10 service.toNat))
    have hread : readV6 (display (.v6 ip service zone)).toList = some (.v6 ip service zone, []) := by
      unfold readV6
      simp only [toList_display_v6, char, if_true, hip, readZone_spellZone, Option.bind_eq_bind,
        Option.bind_some, readService_display, Option.pure_def]
    have hv4 : readV4 (display (.v6 ip service zone)).toList = none := by
      rw [toList_display_v6, readV4_bracket]
    unfold ofText?
    rw [hv4, Option.none_or, hread]

end SocketAddress

end BranchSync.Net
