import Mannequin.Proofs.Settings

/-!
# What becomes of refused settings

A value can be refused because it is of another type or because it is out of range. The log
is told only of the latter: it names the entry of every value that is read and not taken.
A value that cannot be read, null among them, is passed over, and the log is silent on it.
-/

namespace Mannequin

variable {α β : Type}

/-- A warning among some lines has a name in its text. -/
def Told (lines : List Line) (name : String) : Prop :=
  ∃ line ∈ lines, line.level = .warn ∧ name.toList <:+: line.text.toList

instance (lines : List Line) (name : String) : Decidable (Told lines name) :=
  inferInstanceAs (Decidable (∃ line ∈ lines, _ ∧ _))

/-- What can be read is in force or told of. Otherwise the standard is in force, and nothing
is told. -/
structure Accounted (read? : Json α → Option β) (standard : β) (written? : Option (Json α))
    (actual : β) (told : Prop) : Prop where
  heard : ∀ x, written?.bind read? = some x → actual = x ∨ told
  unheard : written?.bind read? = none → actual = standard ∧ ¬ told

/-- A choice is accounted for if exactly the values out of range are told of. -/
theorem Chosen.accounted {read? : Json α → Option β} {InRange : β → Prop} {standard actual : β}
    {written? : Option (Json α)} {told : Prop}
    (h : Chosen read? InRange standard written? actual)
    (htold : told ↔ ∃ x, written?.bind read? = some x ∧ ¬ InRange x) :
    Accounted read? standard written? actual told where
  heard x hx := by
    by_cases hrange : InRange x
    · exact .inl (h.taken x hx hrange)
    · exact .inr (htold.mpr ⟨x, hx, hrange⟩)
  unheard hnone := by
    constructor
    · exact h.kept fun x hx => nomatch hnone.symm.trans hx
    · intro h
      obtain ⟨x, hx, -⟩ := htold.mp h
      cases hnone.symm.trans hx

theorem Json.exists_of_typeName_object {value : Json α} (h : value.typeName = "object") :
    ∃ entries, value = .obj entries := by
  cases value with
  | obj entries => exact ⟨entries, rfl⟩
  | _ => simp [typeName] at h

/-- An entry has one thing to say, and says it of the values that are out of range. -/
theorem SettingsEntry.fault?_eq_some {entry : SettingsEntry α β} {table : Json α}
    {fault : SettingsFault} :
    entry.fault? table = some fault ↔
      (∃ x, entry.written? table = some x ∧ ¬ entry.accepts x = true) ∧
        fault = .refused entry.name entry.demand := by
  simp only [fault?, Option.map_eq_some_iff, Option.filter_eq_some_iff, Bool.not_eq_eq_eq_not,
    Bool.not_true, Bool.not_eq_true]
  constructor
  · rintro ⟨x, hx, rfl⟩
    exact ⟨⟨x, hx⟩, rfl⟩
  · rintro ⟨⟨x, hx⟩, rfl⟩
    exact ⟨x, hx, rfl⟩

namespace Settings

variable {table : Json Float}

/-- What there is to say of an entry, and whether it is said. -/
structure Report where
  entry : String
  demand : String
  refused : Prop

/-- The report on an entry: whether a section has a value that it refuses. -/
def report (table : Json Float) (entry : SettingsEntry Float β) : Report where
  entry := entry.name
  demand := entry.demand
  refused := ∃ x, entry.written? table = some x ∧ ¬ entry.accepts x = true

/-- The reports on all entries. -/
def reports (table : Json Float) : List Report :=
  [report table tempPrefixEntry, report table degenerateEpsilonEntry,
    report table bindWeightEntry, report table strictBonesEntry,
    report table defaultSegmentsEntry]

theorem mem_sectionFaults_iff {fault : SettingsFault} :
    fault ∈ sectionFaults table ↔
      ∃ r ∈ reports table, r.refused ∧ fault = .refused r.entry r.demand := by
  simp only [sectionFaults, reports, report, List.mem_filterMap, id, List.mem_cons,
    List.not_mem_nil, exists_eq_or_imp, exists_eq_left, or_false, SettingsEntry.fault?_eq_some]

/-- What is demanded of each entry, by its name. -/
def demands : List (String × String) :=
  [("temp_prefix", "must not be empty"), ("degenerate_epsilon", "must be positive"),
    ("bind_weight", "must be in [0, 1]"), ("strict_bones", "must be a boolean"),
    ("default_segments", "must be in [3, 4096]")]

theorem demands_reports (table : Json Float) :
    (reports table).map (fun r => (r.entry, r.demand)) = demands := rfl

/-- No refusal mentions the name of another entry. -/
theorem eq_of_mentioned : ∀ a ∈ demands, ∀ b ∈ demands,
    a.1.toList <:+: (SettingsFault.refused b.1 b.2).message.toList → a = b := by
  decide +kernel

theorem mentioned (name demand : String) :
    name.toList <:+: (SettingsFault.refused name demand).message.toList := by
  have hmessage : (SettingsFault.refused name demand).message =
      "generator." ++ name ++ " " ++ demand ++ "; keeping default" := rfl
  simp only [hmessage, String.toList_append, List.append_assoc]
  exact List.infix_append' _ _ _

/-- The lines about a section name an entry exactly if it refuses a value. -/
theorem told_iff {r : Report} (hr : r ∈ reports table) :
    Told ((sectionFaults table).map SettingsFault.line) r.entry ↔ r.refused := by
  have hdemand {r : Report} (h : r ∈ reports table) : (r.entry, r.demand) ∈ demands :=
    demands_reports table ▸ List.mem_map_of_mem h
  have hnodup : ((reports table).map fun r => (r.entry, r.demand)).Nodup := by
    rw [demands_reports]
    decide +kernel
  constructor
  · rintro ⟨_, hline, -, hname⟩
    obtain ⟨fault, hfault, rfl⟩ := List.mem_map.mp hline
    obtain ⟨other, hother, hrefused, rfl⟩ := mem_sectionFaults_iff.mp hfault
    have heq := eq_of_mentioned _ (hdemand hr) _ (hdemand hother) hname
    rwa [List.inj_on_of_nodup_map hnodup hr hother heq]
  · intro hrefused
    have hfault := mem_sectionFaults_iff.mpr ⟨r, hr, hrefused, rfl⟩
    exact ⟨_, List.mem_map_of_mem hfault, rfl, mentioned _ _⟩

/-- Every setting is accounted for by what the log says of its entry. -/
structure AccountedFor (table : Json Float) (loaded : LoadedSettings Float) : Prop where
  tempPrefix :
    Accounted Json.text? "__armgen_tmp_" (table.member? "temp_prefix") loaded.settings.tempPrefix
      (Told loaded.lines "temp_prefix")
  degenerateEpsilon :
    Accounted Json.number? 1e-6 (table.member? "degenerate_epsilon")
      loaded.settings.degenerateEpsilon (Told loaded.lines "degenerate_epsilon")
  bindWeight :
    Accounted Json.number? 1 (table.member? "bind_weight") loaded.settings.bindWeight
      (Told loaded.lines "bind_weight")
  strictBones :
    Accounted Json.flag? false (table.member? "strict_bones") loaded.settings.strictBones
      (Told loaded.lines "strict_bones")
  defaultSegments :
    Accounted Json.integer? 12 (table.member? "default_segments")
      (loaded.settings.defaultSegments : Int) (Told loaded.lines "default_segments")

/-- Only the numbers of segments in range wrap into it. -/
theorem accepts_signedWord {n : Int} (hn : Json.FitsWord n) :
    (defaultSegmentsEntry (α := α)).accepts (signedWord n) = true ↔ 3 ≤ n ∧ n ≤ 4096 := by
  rw [accepts_defaultSegmentsEntry]
  constructor
  · rintro ⟨hlow, hhigh⟩
    rw [(signedWord_eq_iff hn (by omega) (by omega)).mp rfl]
    exact ⟨hlow, hhigh⟩
  · rintro ⟨hlow, hhigh⟩
    rw [(signedWord_eq_iff hn (by omega) (by omega)).mpr rfl]
    exact ⟨hlow, hhigh⟩

theorem exists_refused_iff {entry : SettingsEntry Float β} {InRange : β → Prop}
    (hrange : ∀ x, entry.accepts x = true ↔ InRange x) :
    (∃ x, entry.written? table = some x ∧ ¬ entry.accepts x = true) ↔
      ∃ x, (table.member? entry.name).bind entry.read? = some x ∧ ¬ InRange x :=
  exists_congr fun x => and_congr_right fun _ => not_congr (hrange x)

theorem written?_defaultSegmentsEntry (table : Json α) :
    defaultSegmentsEntry.written? table =
      ((table.member? "default_segments").bind Json.integer?).map signedWord := by
  change (table.member? "default_segments").bind defaultSegmentsEntry.read? = _
  cases table.member? "default_segments" with
  | none => rfl
  | some v => cases v <;> rfl

theorem exists_refused_segments_iff (hwords : table.WordSized) :
    (∃ n, defaultSegmentsEntry.written? table = some n ∧
        ¬ (defaultSegmentsEntry (α := Float)).accepts n = true) ↔
      ∃ n, (table.member? "default_segments").bind Json.integer? = some n ∧
        ¬ (3 ≤ n ∧ n ≤ 4096) := by
  have hfits {n : Int}
      (h : (table.member? "default_segments").bind Json.integer? = some n) : Json.FitsWord n := by
    obtain ⟨v, hv, hn⟩ := Option.bind_eq_some_iff.mp h
    cases hwords.member? hv with
    | int hn' =>
        cases hn
        exact hn'
    | _ => cases hn
  simp only [written?_defaultSegmentsEntry, Option.map_eq_some_iff]
  constructor
  · rintro ⟨_, ⟨n, hn, rfl⟩, hrefused⟩
    exact ⟨n, hn, (accepts_signedWord (hfits hn)).not.mp hrefused⟩
  · rintro ⟨n, hn, hout⟩
    exact ⟨_, ⟨n, hn, rfl⟩, (accepts_signedWord (hfits hn)).not.mpr hout⟩

/-- The log is told of all values in a section that are refused by their entries. -/
theorem accountedFor_section (hwords : table.WordSized) :
    AccountedFor table ⟨ofSection table, (sectionFaults table).map SettingsFault.line⟩ := by
  have hwritten := asWritten_ofSection hwords
  have htold := @told_iff table
  simp only [reports, report, List.forall_mem_cons] at htold
  obtain ⟨htemp, hepsilon, hweight, hbones, hsegments, -⟩ := htold
  exact
    { tempPrefix := hwritten.tempPrefix.accounted
        (htemp.trans (exists_refused_iff fun _ => decide_eq_true_iff))
      degenerateEpsilon := hwritten.degenerateEpsilon.accounted
        (hepsilon.trans (exists_refused_iff accepts_degenerateEpsilonEntry))
      bindWeight := hwritten.bindWeight.accounted
        (hweight.trans (exists_refused_iff accepts_bindWeightEntry))
      strictBones := hwritten.strictBones.accounted
        (hbones.trans (exists_refused_iff fun _ => iff_of_true rfl trivial))
      defaultSegments := hwritten.defaultSegments.accounted
        (hsegments.trans (exists_refused_segments_iff hwords)) }

theorem ofJson?_of_section {file : String} {content? : Option (Json Float)}
    (hsection : (sectionIn content?).typeName = "object") :
    ofJson? file content? = ⟨ofSection (sectionIn content?),
      (sectionFaults (sectionIn content?)).map SettingsFault.line⟩ := by
  obtain ⟨entries, hentries⟩ := Json.exists_of_typeName_object hsection
  rw [hentries]
  cases content? with
  | none => cases hentries
  | some value =>
      cases value with
      | obj members =>
          change sectionOf (.obj members) = .obj entries at hentries
          simp only [ofJson?, hentries]
      | _ => cases hentries

/-- If what a settings file holds has a section, every setting in it is accounted for: a
value of the right type is in force or the log names its entry. A value of another type
changes nothing, and the log does not name its entry. This takes that integers fit a machine
word, as all integers in a file do. -/
theorem accounted_for (file : String) :
    (∀ content? : Option (Json Float), (∀ value ∈ content?, value.WordSized) →
      (sectionIn content?).typeName = "object" →
        AccountedFor (sectionIn content?) (ofJson? file content?)) ∧
    (extension file = ".json" → ∀ bytes : ByteArray,
      (sectionIn (Json.ofBytes? bytes : Option (Json Float))).typeName = "object" →
        AccountedFor (sectionIn (Json.ofBytes? bytes)) (load file (some bytes))) := by
  have hcontent (content? : Option (Json Float)) (hwords : ∀ value ∈ content?, value.WordSized)
      (hsection : (sectionIn content?).typeName = "object") :
      AccountedFor (sectionIn content?) (ofJson? file content?) := by
    rw [ofJson?_of_section hsection]
    exact accountedFor_section (wordSized_sectionIn hwords)
  refine ⟨hcontent, fun hextension bytes hsection => ?_⟩
  rw [load_of_json hextension]
  exact hcontent _ (fun _ => Json.wordSized_of_ofBytes?) hsection

/-- The text of a file with a weight out of range, a prefix in range and a null. -/
def crowdedText : ByteArray :=
  "\x7b\"bind_weight\": 7, \"temp_prefix\": \"t\", \"strict_bones\": null\x7d".toUTF8

theorem accounted_for_crowded :
    (sectioned.WordSized ∧
      (sectionIn (some sectioned)).typeName = "object" ∧
      AccountedFor (sectionIn (some sectioned)) (ofJson? "rig.json" (some sectioned)) ∧
      (ofJson? "rig.json" (some sectioned)).settings.strictBones = true ∧
      (ofJson? "rig.json" (some sectioned)).lines =
        [⟨.warn, "generator.default_segments must be in [3, 4096]; keeping default"⟩]) ∧
    extension "rig.json" = ".json" ∧
      (sectionIn (Json.ofBytes? crowdedText : Option (Json Float))).typeName = "object" ∧
      AccountedFor (sectionIn (Json.ofBytes? crowdedText)) (load "rig.json" (some crowdedText)) ∧
      (load "rig.json" (some crowdedText) : LoadedSettings Float).settings.tempPrefix = "t" ∧
      (load "rig.json" (some crowdedText) : LoadedSettings Float).lines =
        [⟨.warn, "generator.bind_weight must be in [0, 1]; keeping default"⟩] := by
  have hextension : extension "rig.json" = ".json" := by decide +kernel
  have hsection :
      (sectionIn (Json.ofBytes? crowdedText : Option (Json Float))).typeName = "object" := by
    decide +kernel
  have hobject : (sectionIn (some sectioned)).typeName = "object" := rfl
  obtain ⟨hvalues, htexts⟩ := accounted_for "rig.json"
  have hsectioned := hvalues (some sectioned)
    (fun _ h => Option.some.inj h ▸ wordSized_sectioned) hobject
  exact ⟨⟨wordSized_sectioned, hobject, hsectioned, by decide +kernel, by decide +kernel⟩,
    hextension, hsection, htexts hextension crowdedText hsection, by decide +kernel,
    by decide +kernel⟩

/-- The text of a file whose weight is not a number. -/
def wordyText : ByteArray := "\x7b\"bind_weight\": \"heavy\"\x7d".toUTF8

/-- The weight is not taken, and the log does not name it. -/
theorem exists_dropped_silently : ∃ weight,
    (sectionIn (Json.ofBytes? wordyText)).member? "bind_weight" = some weight ∧
      weight.number? ≠
        some (load "rig.json" (some wordyText) : LoadedSettings Float).settings.bindWeight ∧
      ¬ Told (load "rig.json" (some wordyText) : LoadedSettings Float).lines "bind_weight" := by
  have hread : ((sectionIn (Json.ofBytes? wordyText : Option (Json Float))).member?
      "bind_weight").map Json.text? = some (some "heavy") := by
    decide +kernel
  obtain ⟨weight, hweight, htext⟩ := Option.map_eq_some_iff.mp hread
  refine ⟨weight, hweight, ?_, by decide +kernel⟩
  cases weight with
  | str => exact nofun
  | _ => cases htext

end Settings

end Mannequin
