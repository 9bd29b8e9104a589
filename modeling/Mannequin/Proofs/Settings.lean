import Mannequin.Proofs.Scalar.Total
import Mannequin.Proofs.Words
import Mannequin.Scalar.Binary64
import Mannequin.Settings.File

/-!
# Settings as they are written

A settings file may hold anything, or nothing that can be parsed. Each setting is chosen by
itself: what is written in its place is taken if it is of the right type and in range, and
the standard is kept otherwise. So the settings of a file are always valid. The number of
segments is read as a signed word, but no integer of a text wraps into its range.
-/

namespace Mannequin

variable {α β : Type}

/-! ### Choosing a value -/

/-- What is written is taken if it is of the type that is read and in range, and otherwise
the standard is kept. -/
structure Chosen (read? : Json α → Option β) (InRange : β → Prop) (standard : β)
    (written? : Option (Json α)) (actual : β) : Prop where
  taken : ∀ x, written?.bind read? = some x → InRange x → actual = x
  kept : (∀ x, written?.bind read? = some x → ¬ InRange x) → actual = standard

namespace Chosen

variable {read? read?' : Json α → Option β} {InRange : β → Prop} {standard actual : β}
  {written? : Option (Json α)}

/-- A value is in range if the standard is. -/
theorem inRange (h : Chosen read? InRange standard written? actual)
    (hstandard : InRange standard) : InRange actual := by
  by_cases hwritten : ∃ x, written?.bind read? = some x ∧ InRange x
  · obtain ⟨x, hread, hx⟩ := hwritten
    rwa [h.taken x hread hx]
  · rwa [h.kept fun x hread hx => hwritten ⟨x, hread, hx⟩]

/-- Only what is read as a value in range makes a difference. -/
theorem congr (h : Chosen read? InRange standard written? actual)
    (hread : ∀ v ∈ written?, ∀ x, InRange x → (read?' v = some x ↔ read? v = some x)) :
    Chosen read?' InRange standard written? actual := by
  have hbind : ∀ x, InRange x → (written?.bind read?' = some x ↔ written?.bind read? = some x) := by
    intro x hx
    cases written? with
    | none => exact .rfl
    | some v => exact hread v rfl x hx
  exact
    { taken x hx hrange := h.taken x ((hbind x hrange).mp hx) hrange
      kept hnone := h.kept fun x hx hrange => hnone x ((hbind x hrange).mpr hx) hrange }

end Chosen

/-- The value in force for an entry is chosen from what its section holds. -/
theorem SettingsEntry.chosen (entry : SettingsEntry α β) {InRange : β → Prop}
    (hrange : ∀ x, entry.accepts x = true ↔ InRange x) (standard : β) (table : Json α) :
    Chosen entry.read? InRange standard (table.member? entry.name)
      (entry.value standard table) where
  taken x hx hrange' := by
    rw [value, written?, hx, Option.filter_some, if_pos ((hrange x).mpr hrange')]
    rfl
  kept hnone := by
    have hrefused : ∀ x, (table.member? entry.name).bind entry.read? = some x →
        ¬ entry.accepts x = true := fun x hx haccepts => hnone x hx ((hrange x).mp haccepts)
    rw [value, written?, Option.filter_eq_none_iff.mpr hrefused]
    rfl

/-! ### Words -/

/-- Of the integers that fit a word, only a number itself is held as it in a signed word,
unless it is negative. -/
theorem Settings.signedWord_eq_iff {n x : Int} (hn : Json.FitsWord n) (hx : 0 ≤ x)
    (hx' : x < 2 ^ 63) : signedWord n = x ↔ n = x := by
  obtain ⟨hlow, hhigh⟩ := hn
  have hsize : ((Nat.pow 2 64 : Nat) : Int) = 2 ^ 64 := by norm_num
  have hpow (k : Nat) : Int.pow 2 k = 2 ^ k := rfl
  rw [hpow] at hlow hhigh
  rw [signedWord, Int.bmod_def, hsize]
  split <;> omega

/-! ### Valid settings -/

/-- The text that a value is. -/
def Json.text? : Json α → Option String
  | .str text => some text
  | _ => none

/-- The truth value that a value is. -/
def Json.flag? : Json α → Option Bool
  | .bool flag => some flag
  | _ => none

/-- The integer that a value is. -/
def Json.integer? : Json α → Option Int
  | .int n => some n
  | _ => none

namespace Settings

/-- Every setting is in its range. -/
structure Valid (s : Settings Float) : Prop where
  tempPrefix : s.tempPrefix ≠ ""
  degenerateEpsilon : s.degenerateEpsilon.isFinite = true ∧ 0 < s.degenerateEpsilon
  bindWeight : 0 ≤ s.bindWeight ∧ s.bindWeight ≤ 1
  defaultSegments : 3 ≤ s.defaultSegments ∧ s.defaultSegments ≤ 4096

/-- Every setting is chosen from the member of its own name. -/
structure AsWritten (table : Json Float) (s : Settings Float) : Prop where
  tempPrefix :
    Chosen Json.text? (· ≠ "") "__armgen_tmp_" (table.member? "temp_prefix") s.tempPrefix
  degenerateEpsilon :
    Chosen Json.number? (fun x => x.isFinite = true ∧ 0 < x) 1e-6
      (table.member? "degenerate_epsilon") s.degenerateEpsilon
  bindWeight :
    Chosen Json.number? (fun x => 0 ≤ x ∧ x ≤ 1) 1 (table.member? "bind_weight") s.bindWeight
  strictBones :
    Chosen Json.flag? (fun _ => True) false (table.member? "strict_bones") s.strictBones
  defaultSegments :
    Chosen Json.integer? (fun n => 3 ≤ n ∧ n ≤ 4096) 12 (table.member? "default_segments")
      (s.defaultSegments : Int)

/-- Settings that are chosen from a section are valid, since the standard ones are. -/
theorem AsWritten.valid {table : Json Float} {s : Settings Float} (h : s.AsWritten table) :
    s.Valid where
  tempPrefix := h.tempPrefix.inRange (by decide)
  degenerateEpsilon := h.degenerateEpsilon.inRange (by decide +kernel)
  bindWeight := h.bindWeight.inRange (by decide +kernel)
  defaultSegments := by
    have hrange := h.defaultSegments.inRange (by decide)
    omega

/-! ### Entries -/

theorem accepts_degenerateEpsilonEntry (x : Float) :
    degenerateEpsilonEntry.accepts x = true ↔ x.isFinite = true ∧ 0 < x := by
  rw [degenerateEpsilonEntry, decide_eq_true_iff]
  refine and_congr_right fun hx => ⟨?_, Scalar.Linear.not_le_of_lt 0 x⟩
  exact Scalar.Total.lt_of_not_le x 0 hx (by decide +kernel)

theorem accepts_bindWeightEntry (x : Float) :
    bindWeightEntry.accepts x = true ↔ 0 ≤ x ∧ x ≤ 1 := by
  rw [bindWeightEntry, decide_eq_true_iff]
  constructor
  · rintro ⟨hx, hlow, hhigh⟩
    exact ⟨Scalar.le_of_not_lt (by decide +kernel) hx hlow,
      Scalar.le_of_not_lt hx (by decide +kernel) hhigh⟩
  · rintro ⟨hlow, hhigh⟩
    exact ⟨Binary64.isFinite_of_mem_unit hlow hhigh,
      fun hlt => Scalar.Linear.not_le_of_lt x 0 hlt hlow,
      fun hlt => Scalar.Linear.not_le_of_lt 1 x hlt hhigh⟩

theorem accepts_defaultSegmentsEntry (n : Int) :
    (defaultSegmentsEntry (α := α)).accepts n = true ↔ 3 ≤ n ∧ n ≤ 4096 :=
  decide_eq_true_iff

/-- Wrapping makes no difference to the numbers of segments in range. -/
theorem chosen_defaultSegments {table : Json α} (hwords : table.WordSized) :
    Chosen Json.integer? (fun n => 3 ≤ n ∧ n ≤ 4096) 12 (table.member? "default_segments")
      (defaultSegmentsEntry.value 12 table) := by
  refine (defaultSegmentsEntry.chosen accepts_defaultSegmentsEntry 12 table).congr ?_
  rintro v hv x ⟨hlow, hhigh⟩
  cases hwords.member? hv with
  | int hn =>
      rename_i n
      exact (Option.some_inj.trans (signedWord_eq_iff hn (by omega) (by omega)).symm).trans
        Option.some_inj.symm
  | _ => exact .rfl

theorem asWritten_ofSection {table : Json Float} (hwords : table.WordSized) :
    (ofSection table).AsWritten table where
  tempPrefix := tempPrefixEntry.chosen (fun _ => decide_eq_true_iff) _ table
  degenerateEpsilon := degenerateEpsilonEntry.chosen accepts_degenerateEpsilonEntry _ table
  bindWeight := bindWeightEntry.chosen accepts_bindWeightEntry _ table
  strictBones := strictBonesEntry.chosen (fun _ => iff_of_true rfl trivial) _ table
  defaultSegments := by
    have hchosen := chosen_defaultSegments hwords
    have hlow := (hchosen.inRange (by decide)).1
    rw [ofSection, Int.toNat_of_nonneg (by exact le_trans (by decide) hlow)]
    exact hchosen

/-! ### Files -/

/-- The section with the settings in what a file holds: nothing if it cannot be parsed. -/
def sectionIn (content? : Option (Json α)) : Json α := content?.elim .null sectionOf

theorem wordSized_sectionIn {content? : Option (Json α)}
    (h : ∀ value ∈ content?, value.WordSized) : (sectionIn content?).WordSized := by
  cases content? with
  | none => exact .null
  | some file =>
      rw [sectionIn, Option.elim_some, sectionOf]
      cases hsection : file.member? "generator" with
      | none => exact h file rfl
      | some table => exact (h file rfl).member? hsection

/-- What has no members leaves the standard in force. -/
theorem ofSection_of_members {table : Json α} [Scalar α] (h : table.members = ∅) :
    ofSection table = standard := by
  have hnone (name : String) : table.member? name = none := by
    rw [Json.member?, h]
    rfl
  simp only [ofSection, SettingsEntry.value, SettingsEntry.written?, hnone]
  rfl

/-- Where the log is told that there is no section, what there is has no members. -/
theorem settings_ofJson? [Scalar α] (file : String) (content? : Option (Json α)) :
    (ofJson? file content?).settings = ofSection (sectionIn content?) := by
  unfold ofJson?
  split
  case h_1 members =>
    change _ = ofSection (sectionOf (.obj members))
    split
    case h_1 entries hentries => rw [hentries]
    case h_2 hnone =>
      refine (ofSection_of_members ?_).symm
      cases htable : sectionOf (.obj members) with
      | obj entries => cases hnone entries htable
      | _ => rfl
  case h_2 hnone =>
    refine (ofSection_of_members ?_).symm
    cases content? with
    | none => rfl
    | some value =>
        cases value with
        | obj members => cases hnone members rfl
        | _ => rfl

theorem load_of_json [Scalar α] {file : String} (hextension : extension file = ".json")
    (bytes : ByteArray) :
    (load file (some bytes) : LoadedSettings α) = ofJson? file (Json.ofBytes? bytes) := by
  rw [load, hextension]
  rfl

/-- Whatever a settings file holds, its settings are valid, and each one is chosen from the
member of its name in the section of the file. This takes that integers fit a machine word,
as all integers in a file do. -/
theorem chosen_as_written (file : String) :
    (∀ content? : Option (Json Float), (∀ value ∈ content?, value.WordSized) →
      (ofJson? file content?).settings.Valid ∧
        (ofJson? file content?).settings.AsWritten (sectionIn content?)) ∧
    (extension file = ".json" → ∀ bytes : ByteArray,
      (load file (some bytes) : LoadedSettings Float).settings.Valid ∧
        (load file (some bytes)).settings.AsWritten (sectionIn (Json.ofBytes? bytes))) := by
  have hcontent (content? : Option (Json Float)) (hwords : ∀ value ∈ content?, value.WordSized) :
      (ofJson? file content?).settings.AsWritten (sectionIn content?) := by
    rw [settings_ofJson?]
    exact asWritten_ofSection (wordSized_sectionIn hwords)
  constructor
  · intro content? hwords
    exact ⟨(hcontent content? hwords).valid, hcontent content? hwords⟩
  · intro hextension bytes
    have hwords : ∀ value ∈ Json.ofBytes? bytes, (value : Json Float).WordSized :=
      fun _ => Json.wordSized_of_ofBytes?
    rw [load_of_json hextension]
    exact ⟨(hcontent _ hwords).valid, hcontent _ hwords⟩

/-- A file with settings in its section and beside it. As a signed word, the number of
segments is minus one. -/
def sectioned : Json Float :=
  .obj [("bind_weight", .int 0),
    ("generator", .obj [("default_segments", .int (2 ^ 64 - 1)), ("strict_bones", .bool true)])]

theorem wordSized_sectioned : sectioned.WordSized := by
  refine .obj (List.forall_mem_cons.mpr ⟨.int (by decide), List.forall_mem_singleton.mpr ?_⟩)
  exact .obj (List.forall_mem_cons.mpr
    ⟨.int (by decide), List.forall_mem_singleton.mpr (.bool true)⟩)

/-- The text of a file with settings beside each other, one of them out of range. -/
def plainText : ByteArray := "\x7b \"bind_weight\": 7, \"default_segments\": 16 \x7d".toUTF8

theorem chosen_as_written_samples :
    (sectioned.WordSized ∧
      (ofJson? "rig.json" (some sectioned)).settings.Valid ∧
      (ofJson? "rig.json" (some sectioned)).settings.AsWritten (sectionIn (some sectioned)) ∧
      (ofJson? "rig.json" (some sectioned)).settings = { standard with strictBones := true }) ∧
    extension "rig.json" = ".json" ∧
      (load "rig.json" (some plainText) : LoadedSettings Float).settings.Valid ∧
      (load "rig.json" (some plainText)).settings.AsWritten
        (sectionIn (Json.ofBytes? plainText)) ∧
      (load "rig.json" (some plainText) : LoadedSettings Float).settings =
        { standard with defaultSegments := 16 } := by
  have hextension : extension "rig.json" = ".json" := by decide +kernel
  obtain ⟨hvalues, htexts⟩ := chosen_as_written "rig.json"
  obtain ⟨hvalid, hwritten⟩ :=
    hvalues (some sectioned) fun _ h => Option.some.inj h ▸ wordSized_sectioned
  obtain ⟨hvalid', hwritten'⟩ := htexts hextension plainText
  exact ⟨⟨wordSized_sectioned, hvalid, hwritten, by decide +kernel⟩,
    hextension, hvalid', hwritten', by decide +kernel⟩

end Settings

end Mannequin
