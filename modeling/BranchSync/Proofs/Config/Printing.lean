import BranchSync.Program.Run
import BranchSync.Proofs.Net.Addresses
import BranchSync.Proofs.Toml.Documents

/-!
# Settings survive their file

Settings that are printed are loaded back from the text, and so is what remains of the text when some
of its entries are struck out, with the defaults for those. All keys are different and every decoder
takes the value that was written for its setting, so this follows from what one key stands for in what
remains. The only settings without a text are those with a size that is too large for an integer. So
the program that is given a text that it printed prints the same text again.
-/

namespace BranchSync

namespace Settings

open Toml

variable {α : Type} {s : Settings} {kept : List (String × Scalar)}

/-- The settings under the given keys, and the defaults for all others. -/
def keeping (s : Settings) (keys : List String) : Settings where
  bindAddress := if "bind_addr" ∈ keys then s.bindAddress else default.bindAddress
  maxPackSize := if "max_pack_size" ∈ keys then s.maxPackSize else default.maxPackSize
  verifyStartTip := if "verify_start_tip" ∈ keys then s.verifyStartTip else default.verifyStartTip
  exportDepth := if "export_depth" ∈ keys then s.exportDepth else default.exportDepth
  logFilter := if "log_filter" ∈ keys then s.logFilter else default.logFilter

/-- What settings are written as has no key twice. -/
theorem nodup_keys_toEntries (s : Settings) : (s.toEntries.map Prod.fst).Nodup := by
  unfold toEntries
  cases s.exportDepth with
  | none => exact (by decide : ["bind_addr", "max_pack_size", "verify_start_tip", "log_filter"].Nodup)
  | some count =>
    exact (by decide : ["bind_addr", "max_pack_size", "verify_start_tip", "export_depth",
      "log_filter"].Nodup)

/-- What settings are written as holds all of them: a depth that is not written is the default. -/
theorem keeping_keys_toEntries (s : Settings) : s.keeping (s.toEntries.map Prod.fst) = s := by
  obtain ⟨address, size, verify, depth, filter⟩ := s
  cases depth <;> simp [keeping, toEntries, default]

/-- Every entry can be written, if the size can. -/
theorem writableEntry_of_mem (hsize : s.maxPackSize.toNat < integerBound) {entry : String × Scalar}
    (h : entry ∈ s.toEntries) : WritableEntry entry := by
  simp only [toEntries, List.mem_append, List.mem_cons, List.not_mem_nil, or_false] at h
  rcases h with ((rfl | rfl | rfl) | h) | rfl
  · exact ⟨(by decide : BareKey "bind_addr"), trivial⟩
  · exact ⟨(by decide : BareKey "max_pack_size"), hsize⟩
  · exact ⟨(by decide : BareKey "verify_start_tip"), trivial⟩
  · cases hdepth : s.exportDepth with
    | none =>
      rw [hdepth] at h
      cases h
    | some count =>
      rw [hdepth] at h
      rw [List.mem_singleton.mp h]
      exact ⟨(by decide : BareKey "export_depth"), Nat.lt_trans count.toNat_lt (by decide)⟩
  · exact ⟨(by decide : BareKey "log_filter"), trivial⟩

/-- A key that was struck out has its default, and the others have the value that is read. -/
theorem fromKey_of_sublist {decode : Item → Option α} {value found : α} {key : String}
    {remaining items : Entries} (h : remaining.Sublist items) (hkeys : (items.map Prod.fst).Nodup)
    (hfound : fromKey decode value key items = some found) :
    fromKey decode value key remaining =
      some (if key ∈ remaining.map Prod.fst then found else value) := by
  unfold fromKey at hfound ⊢
  rw [Entries.get?_of_sublist h hkeys]
  split_ifs
  · exact hfound
  · rfl

/-- The items that settings are written as. -/
def toItems (s : Settings) : Entries := s.toEntries.map fun entry => (entry.1, entry.2.item)

/-- An integer below a bound is read as itself. -/
theorem asBelow_toNat {bound n : Nat} (h : n < bound) : asBelow bound (.integer n) = some n := by
  simp [asBelow, h]

/-- What remains of the items of settings is read as the settings under its keys. -/
theorem ofEntries?_of_sublist {remaining : Entries} (h : remaining.Sublist s.toItems) :
    ofEntries? remaining = some (s.keeping (remaining.map Prod.fst)) := by
  have hkeys : (s.toItems.map Prod.fst).Nodup := by
    rw [toItems, List.map_map]
    exact s.nodup_keys_toEntries
  have haddress : fromKey asAddress default.bindAddress "bind_addr" s.toItems =
      some s.bindAddress := Net.SocketAddress.ofText?_display s.bindAddress
  have hsize : fromKey (fun i => (asBelow UInt64.size i).map UInt64.ofNat) default.maxPackSize
      "max_pack_size" s.toItems = some s.maxPackSize := by
    change (asBelow UInt64.size (.integer s.maxPackSize.toNat)).map UInt64.ofNat = _
    rw [asBelow_toNat s.maxPackSize.toNat_lt, Option.map_some, UInt64.ofNat_toNat]
  have hverify : fromKey asFlag default.verifyStartTip "verify_start_tip" s.toItems =
      some s.verifyStartTip := rfl
  have hdepth : fromKey (fun i => (asBelow UInt32.size i).map fun n => some (UInt32.ofNat n))
      default.exportDepth "export_depth" s.toItems = some s.exportDepth := by
    unfold toItems toEntries
    cases s.exportDepth with
    | none => rfl
    | some count =>
      change (asBelow UInt32.size (.integer count.toNat)).map (fun n => some (UInt32.ofNat n)) = _
      rw [asBelow_toNat count.toNat_lt, Option.map_some, UInt32.ofNat_toNat]
  have hfilter : fromKey asText default.logFilter "log_filter" s.toItems = some s.logFilter := by
    unfold toItems toEntries
    cases s.exportDepth <;> rfl
  unfold ofEntries?
  simp only [fromKey_of_sublist h hkeys haddress, fromKey_of_sublist h hkeys hsize,
    fromKey_of_sublist h hkeys hverify, fromKey_of_sublist h hkeys hdepth,
    fromKey_of_sublist h hkeys hfilter, Option.bind_eq_bind, Option.bind_some, Option.pure_def]
  rfl

/-- What remains of printed settings is loaded from a file. -/
theorem ofFile_render (hsize : s.maxPackSize.toNat < integerBound) (h : kept.Sublist s.toEntries) :
    ofFile (some (Text.octets (render kept))) = .ok (s.keeping (kept.map Prod.fst)) := by
  have hread : read? (render kept) = some (kept.map fun entry => (entry.1, entry.2.item)) :=
    read?_render (fun entry hentry => writableEntry_of_mem hsize (h.subset hentry))
      (s.nodup_keys_toEntries.sublist (h.map Prod.fst))
  have hitems := ofEntries?_of_sublist (h.map fun entry => (entry.1, entry.2.item))
  rw [List.map_map] at hitems
  simp only [ofFile, Text.ofOctets?_octets, ofToml, hread, Option.bind_some, hitems]
  rfl

/-- Settings have a text exactly if their size is one of an integer. -/
theorem toToml_eq_ok_iff {text : String} :
    s.toToml = .ok text ↔ s.maxPackSize.toNat < integerBound ∧ render s.toEntries = text := by
  by_cases hsize : s.maxPackSize.toNat < integerBound <;> simp [toToml, hsize]

/-- Printed settings are loaded from a file. -/
theorem ofFile_of_toToml {text : String} (h : s.toToml = .ok text) :
    ofFile (some (Text.octets text)) = .ok s := by
  obtain ⟨hsize, rfl⟩ := toToml_eq_ok_iff.mp h
  rw [ofFile_render hsize (List.Sublist.refl _), keeping_keys_toEntries]

end Settings

variable {files : FileReader} {path : Option String} {text : String}

/-- What the program prints on success are settings. -/
theorem exists_toToml_of_runConfig {diagnostics : String}
    (h : runConfig files path = .ended 0 text diagnostics) : ∃ s : Settings, s.toToml = .ok text := by
  unfold runConfig at h
  split at h
  · simp [Outcome.failed] at h
  · rename_i s hload
    split at h
    · simp [Outcome.failed] at h
    · rename_i printed hprint
      cases h
      exact ⟨s, hprint⟩

/-- Asked for the effective settings of a file with this text, the program prints the text. -/
def PrintsItself (text : String) : Prop :=
  ∀ words name files, Command.ofWords words = .ok (.config (some name)) →
    files name = some (Text.octets text) → runProgram files words = .ended 0 text ""

/-- Printed settings are printed again. -/
theorem printsItself_of_toToml {s : Settings} (h : s.toToml = .ok text) : PrintsItself text := by
  intro words name files hwords hfile
  have hload : loadSettings files (some name) = .ok s := by
    rw [loadSettings, hfile, Settings.ofFile_of_toToml h]
  simp only [runProgram, hwords, runConfig, hload, h]

/-- Settings whose size is at most `2 ^ 63 - 1` are printed and loaded back, also from what remains of
the text when any of its entries are struck out, which have the defaults then; larger sizes cannot be
printed. The command that prints the effective settings prints its own output again, whatever command
line and file the output came from. -/
theorem Settings.printed_and_loaded_back :
    (∀ s : Settings, s.maxPackSize.toNat ≤ Nat.pow 2 63 - 1 →
      s.toToml = .ok (Toml.render s.toEntries) ∧
      ofFile (some (Text.octets (Toml.render s.toEntries))) = .ok s ∧
      PrintsItself (Toml.render s.toEntries) ∧
      ∀ kept, kept.Sublist s.toEntries →
        ofFile (some (Text.octets (Toml.render kept))) = .ok (s.keeping (kept.map Prod.fst))) ∧
    (∀ s : Settings, Nat.pow 2 63 - 1 < s.maxPackSize.toNat → s.toToml = .error .configuration) ∧
    ∀ words path files text diagnostics, Command.ofWords words = .ok (.config path) →
      runProgram files words = .ended 0 text diagnostics → PrintsItself text := by
  refine ⟨fun s hsize => ?_, fun s hsize => ?_, ?_⟩
  · have hbelow : s.maxPackSize.toNat < Toml.integerBound := Nat.lt_of_le_pred (by decide) hsize
    have hprint : s.toToml = .ok (Toml.render s.toEntries) := toToml_eq_ok_iff.mpr ⟨hbelow, rfl⟩
    exact ⟨hprint, ofFile_of_toToml hprint, printsItself_of_toToml hprint,
      fun kept hkept => ofFile_render hbelow hkept⟩
  · exact if_neg (Nat.not_lt.mpr (Nat.le_of_pred_lt hsize))
  · intro words path files text diagnostics hwords hrun
    rw [runProgram, hwords] at hrun
    obtain ⟨s, hprint⟩ := exists_toToml_of_runConfig hrun
    exact printsItself_of_toToml hprint

/-- Settings that need care: an address with a zone, the largest size that can be printed, a depth of
zero, and a filter that fits in no quotation without escapes. -/
def Settings.awkward : Settings where
  bindAddress := .v6 ⟨[0xfe80, 0, 0, 0, 0, 0, 0, 1], rfl⟩ 7420 3
  maxPackSize := 9223372036854775807
  verifyStartTip := true
  exportDepth := some 0
  logFilter := "\x27\x27\x27\x22\x22\x22\x22\\\n\x07"

/-- The awkward settings are loaded back, with the last two entries alone too; they cannot be printed
with a size that is larger by one. What the program prints without a file, it prints again. -/
theorem Settings.awkward_loaded_back :
    ofFile (some (Text.octets (Toml.render awkward.toEntries))) = .ok awkward ∧
    ofFile (some (Text.octets (Toml.render
      [("export_depth", .integer 0), ("log_filter", .string awkward.logFilter)]))) =
        .ok { default with exportDepth := some 0, logFilter := awkward.logFilter } ∧
    toToml { awkward with maxPackSize := 9223372036854775808 } = .error .configuration ∧
    runProgram (fun _ => some (Text.octets (Toml.render default.toEntries)))
      ["config", "--config", "server.toml"] = .ended 0 (Toml.render default.toEntries) "" := by
  obtain ⟨hprinted, hlarge, hrun⟩ := printed_and_loaded_back
  obtain ⟨-, hloaded, -, hkept⟩ := hprinted awkward (by decide)
  have hlast : List.Sublist [("export_depth", .integer 0), ("log_filter", .string awkward.logFilter)]
      awkward.toEntries := List.drop_sublist 3 awkward.toEntries
  refine ⟨hloaded, hkept _ hlast, hlarge _ (by decide), ?_⟩
  exact hrun ["config"] none (fun _ => none) _ "" rfl rfl _ "server.toml" _ rfl rfl

end BranchSync
