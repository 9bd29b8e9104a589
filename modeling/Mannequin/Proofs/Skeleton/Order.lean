import Mathlib.Data.List.Perm.Basic
import Mannequin.Proofs.Skeleton.Entries
import Mannequin.Proofs.Skeleton.Forest

/-!
# The order of entries

Plain entries may stand in any order. A mirror entry looks for two bones when it has its
turn, its source and the opposite of the parent of its source, and it finds them among the
plain bones and the images that are already there. So the order of two mirror entries
matters if one of them looks for the image of the other, and only then: two lists of the
same entries give the same bones exactly if every such pair stands in the same order in both.
-/

namespace Mannequin

/-- One item stands before another in a list. -/
def Precedes {β : Type} (l : List β) (a b : β) : Prop :=
  ∃ before after, l = before ++ b :: after ∧ a ∈ before

theorem precedes_iff {β : Type} {l before after : List β} {a b : β} (hl : l.Nodup)
    (hsplit : l = before ++ b :: after) : Precedes l a b ↔ a ∈ before := by
  refine ⟨?_, fun ha => ⟨before, after, hsplit, ha⟩⟩
  rintro ⟨before', after', hsplit', ha⟩
  rw [hsplit, List.nodup_append'] at hl
  have hbefore : b ∉ before := fun hb => hl.2.2 hb List.mem_cons_self
  have hafter : b ∉ after := (List.nodup_cons.mp hl.2.1).1
  have hsame := hsplit.symm.trans hsplit'
  obtain ⟨rfl, -⟩ := (List.append_cons_inj_of_notMem hbefore hafter).mp hsame
  exact ha

theorem Precedes.mem {β : Type} {l : List β} {a b : β} (h : Precedes l a b) : a ∈ l := by
  obtain ⟨before, after, rfl, ha⟩ := h
  exact List.mem_append_left _ ha

namespace Skeleton

variable {α : Type} {s s' t t' plain plain' : Skeleton α} {name mirror : String}

/-! ### Bones that are added -/

/-- A skeleton with further bones, all under some names. -/
structure Extends (s s' : Skeleton α) (names : List String) : Prop where
  kept : ∀ name ∈ s.names, s'.bone? name = s.bone? name
  added : ∀ name ∈ s'.names, name ∈ s.names ∨ name ∈ names

namespace Extends

variable {names names' : List String}

theorem of_append {images : List (Bone α)} (h : s'.bones = s.bones ++ images)
    (himages : ∀ image ∈ images, image.name ∈ names) : Extends s s' names := by
  refine ⟨fun name hname => bone?_append h hname, fun name hname => ?_⟩
  rw [names_append h] at hname
  refine (List.mem_append.mp hname).imp_right fun hname => ?_
  obtain ⟨image, himage, rfl⟩ := List.mem_map.mp hname
  exact himages image himage

theorem mem (h : Extends s s' names) (hname : name ∈ s.names) : name ∈ s'.names := by
  obtain ⟨bone, hbone⟩ := exists_bone?_of_mem hname
  exact mem_names_of_bone? ((h.kept name hname).trans hbone)

/-- Under other names nothing changes. -/
theorem bone?_eq (h : Extends s s' names) (hname : name ∉ names) :
    s'.bone? name = s.bone? name := by
  by_cases hin : name ∈ s.names
  · exact h.kept name hin
  · have hout : name ∉ s'.names := fun hin' => (h.added name hin').elim hin hname
    rw [bone?_eq_none hin, bone?_eq_none hout]

theorem trans (h : Extends s t names) (h' : Extends t s' names') :
    Extends s s' (names ++ names') := by
  refine ⟨fun name hname => (h'.kept name (h.mem hname)).trans (h.kept name hname), ?_⟩
  intro name hname
  rw [List.mem_append, ← or_assoc]
  exact (h'.added name hname).imp_left (h.added name)

end Extends

variable [Scalar α] {source : Bone α} {mirrors mirrors' before before' : List (String × String)}
  {entry : String × String} {journal journal' : Journal} {epsilon : α}

/-- A mirror entry adds the image of its source under its name, if it finds the source. -/
theorem extends_addMirror (hnew : name ∉ s.names)
    (h : Returns (addMirror epsilon s name mirror) journal s' journal') :
    Extends s s' [name] ∧ s'.bone? name = (s.bone? mirror).map (s.mirrorBone name) := by
  rcases of_returns_addMirror h with ⟨hsource, rfl, -⟩ | ⟨source, hsource, hadd, -⟩
  · refine ⟨.of_append (List.append_nil _).symm nofun, ?_⟩
    rw [hsource, bone?_eq_none hnew, Option.map_none]
  · have hbones := (of_add_eq_ok hadd).2
    refine ⟨.of_append hbones ?_, ?_⟩
    · intro image himage
      rw [List.mem_singleton.mp himage]
      exact List.mem_singleton_self name
    · rw [hsource, Option.map_some]
      exact bone?_append_self hbones hnew

theorem extends_addMirrors (h : Returns (addMirrors epsilon s mirrors) journal s' journal') :
    Extends s s' (mirrors.map Prod.fst) := by
  obtain ⟨images, -, hbones, -, himages, -⟩ := of_returns_addMirrors h
  exact .of_append hbones himages

/-! ### The turn of a mirror entry -/

/-- What a mirror entry finds when it has its turn, and what comes of it: it finds the plain
bones and the images that entries before it have added, and adds the image of its source. -/
structure Turn (plain s : Skeleton α) (before : List (String × String)) (entry : String × String)
    (t : Skeleton α) : Prop where
  mem : ∀ name, name ∈ t.names ↔
    name ∈ plain.names ∨ name ∈ s.names ∧ name ∈ before.map Prod.fst
  kept : ∀ name ∈ t.names, s.bone? name = t.bone? name
  image : s.bone? entry.1 = (t.bone? entry.2).map (t.mirrorBone entry.1)

/-- Every mirror entry has its turn. -/
theorem exists_turn {after : List (String × String)}
    (hdistinct : (plain.names ++ (before ++ entry :: after).map Prod.fst).Nodup)
    (h : Returns (addMirrors epsilon plain (before ++ entry :: after)) journal s journal') :
    ∃ t, Turn plain s before entry t := by
  rw [addMirrors, List.foldlM_append] at h
  obtain ⟨t, _, hbefore, h⟩ := returns_bind.mp h
  rw [List.foldlM_cons] at h
  obtain ⟨next, _, hentry, hafter⟩ := returns_bind.mp h
  rw [List.map_append, List.nodup_append', List.nodup_append'] at hdistinct
  obtain ⟨-, ⟨-, hlast, hapart⟩, hplain⟩ := hdistinct
  have hstart := extends_addMirrors hbefore
  have hnew : entry.1 ∉ t.names := by
    intro hin
    rcases hstart.added _ hin with hin | hin
    · exact hplain hin (List.mem_append_right _ List.mem_cons_self)
    · exact hapart hin List.mem_cons_self
  obtain ⟨hstep, himage⟩ := extends_addMirror hnew hentry
  have hend := extends_addMirrors hafter
  have hrest : Extends t s (entry.1 :: after.map Prod.fst) := hstep.trans hend
  refine ⟨t, fun name => ⟨fun hin => ?_, ?_⟩, hrest.kept, ?_⟩
  · exact (hstart.added name hin).imp_right fun hbefore => ⟨hrest.mem hin, hbefore⟩
  · rintro (hin | ⟨hin, hbefore⟩)
    · exact hstart.mem hin
    · exact (hrest.added name hin).resolve_right (hapart hbefore)
  · rw [hend.bone?_eq (List.nodup_cons.mp hlast).1, himage]

/-- A skeleton with plain bones and the images that mirror entries add to them, each at its
turn. -/
structure Images (plain : Skeleton α) (mirrors : List (String × String)) (s : Skeleton α) :
    Prop where
  distinct : (plain.names ++ mirrors.map Prod.fst).Nodup
  added : Extends plain s (mirrors.map Prod.fst)
  turn : ∀ before entry after, mirrors = before ++ entry :: after →
    ∃ t, Turn plain s before entry t

theorem images_of_returns_addMirrors (hdistinct : (plain.names ++ mirrors.map Prod.fst).Nodup)
    (h : Returns (addMirrors epsilon plain mirrors) journal s journal') :
    Images plain mirrors s := by
  refine ⟨hdistinct, extends_addMirrors h, ?_⟩
  rintro before entry after rfl
  exact exists_turn hdistinct h

/-! ### Mirror entries that look for images -/

/-- A mirror entry looks for a bone: it mirrors it, or it adds an image of a bone whose parent
has this bone as its opposite. -/
def LooksFor (s : Skeleton α) (entry : String × String) (name : String) : Prop :=
  entry.2 = name ∨ entry.1 ∈ s.names ∧ ∃ source parent, s.bone? entry.2 = some source ∧
    source.parent = some parent ∧ Side.mirrorName parent = name ∧ name ≠ parent

/-- A mirror entry looks for the image that another one adds. -/
def Needs (s : Skeleton α) (entry other : String × String) : Prop :=
  other.1 ∈ s.names ∧ s.LooksFor entry other.1

/-! ### Images in two skeletons -/

omit [Scalar α] in
theorem mem_names_iff : name ∈ s.names ↔ (s.bone? name).isSome = true := by
  rw [← contains_iff, contains, bone?, Option.isSome_map]

/-- The images of a bone in two skeletons are the same exactly if both or neither have the
opposite of its parent. -/
theorem mirrorBone_eq_iff : t.mirrorBone name source = t'.mirrorBone name source ↔
    ∀ parent, source.parent = some parent → Side.mirrorName parent ≠ parent →
      (Side.mirrorName parent ∈ t.names ↔ Side.mirrorName parent ∈ t'.names) := by
  have hparent : t.mirrorBone name source = t'.mirrorBone name source ↔
      (t.mirrorBone name source).parent = (t'.mirrorBone name source).parent := by
    simp [mirrorBone, imageOf]
  rw [hparent]
  simp only [mirrorBone, imageOf, contains_iff]
  cases source.parent with
  | none => simp
  | some parent =>
      by_cases hsame : Side.mirrorName parent = parent
      · simp [hsame]
      · by_cases hin : Side.mirrorName parent ∈ t.names <;>
          by_cases hin' : Side.mirrorName parent ∈ t'.names <;>
          simp [hin, hin', hsame, Ne.symm hsame]

omit [Scalar α] in
theorem mem_names_congr (h : ∀ name, s.bone? name = s'.bone? name) (name : String) :
    name ∈ s.names ↔ name ∈ s'.names := by
  rw [mem_names_iff, mem_names_iff, h]

/-- A mirror entry adds an image exactly if it finds its source. -/
theorem Turn.added_iff (h : Turn plain s before entry t) :
    entry.1 ∈ s.names ↔ entry.2 ∈ t.names := by
  rw [mem_names_iff, mem_names_iff, h.image, Option.isSome_map]

/-- At the turns of one entry in two lists it adds the same image, if every bone that it
looks for is there at both turns or at neither. -/
theorem Turn.bone?_eq (h : Turn plain s before entry t) (h' : Turn plain' s' before' entry t')
    (hsame : ∀ name ∈ t.names, s.bone? name = s'.bone? name)
    (hthere : ∀ name, s.LooksFor entry name → name ∈ t.names → name ∈ t'.names)
    (hthere' : ∀ name, s'.LooksFor entry name → name ∈ t'.names → name ∈ t.names) :
    s.bone? entry.1 = s'.bone? entry.1 := by
  have hsource : t.bone? entry.2 = t'.bone? entry.2 := by
    by_cases hin : entry.2 ∈ t.names
    · rw [← h.kept _ hin, ← h'.kept _ (hthere _ (.inl rfl) hin), hsame _ hin]
    · have hout : entry.2 ∉ t'.names := fun hin' => hin (hthere' _ (.inl rfl) hin')
      rw [bone?_eq_none hin, bone?_eq_none hout]
  rw [h.image, h'.image, ← hsource]
  cases hbone : t.bone? entry.2 with
  | none => rfl
  | some source =>
      have hbone' := hsource.symm.trans hbone
      have hin := mem_names_of_bone? hbone
      have hin' := mem_names_of_bone? hbone'
      refine congrArg some (mirrorBone_eq_iff.mpr fun parent hparent hne => ⟨?_, ?_⟩)
      · exact hthere _ (.inr ⟨h.added_iff.mpr hin, source, parent, (h.kept _ hin).trans hbone,
          hparent, rfl, hne⟩)
      · exact hthere' _ (.inr ⟨h'.added_iff.mpr hin', source, parent,
          (h'.kept _ hin').trans hbone', hparent, rfl, hne⟩)

namespace Images

variable {other : String × String}

theorem nodup (h : Images plain mirrors s) : mirrors.Nodup :=
  .of_map Prod.fst (List.nodup_append'.mp h.distinct).2.1

/-- At the turn of an entry an image is there exactly if the entry that adds it comes before. -/
theorem there_iff {after : List (String × String)} (h : Images plain mirrors s)
    (hsplit : mirrors = before ++ entry :: after) (hturn : Turn plain s before entry t)
    (hother : other ∈ mirrors) (hadded : other.1 ∈ s.names) :
    other.1 ∈ t.names ↔ Precedes mirrors other entry := by
  obtain ⟨-, hnames, hplain⟩ := List.nodup_append'.mp h.distinct
  rw [precedes_iff h.nodup hsplit, hturn.mem]
  constructor
  · rintro (hin | ⟨-, hin⟩)
    · exact absurd (List.mem_map_of_mem hother) (hplain hin)
    · obtain ⟨same, hsame, heq⟩ := List.mem_map.mp hin
      have hmem : same ∈ mirrors := hsplit ▸ List.mem_append_left _ hsame
      exact List.inj_on_of_nodup_map hnames hmem hother heq ▸ hsame
  · exact fun hin => .inr ⟨hadded, List.mem_map_of_mem hin⟩

/-- What is there at the turn of an entry in one list is there at its turn in another, if the
image is added there too and by an entry that comes before. -/
theorem there_of_there {after' : List (String × String)} (h' : Images plain' mirrors' s')
    (hsplit' : mirrors' = before' ++ entry :: after') (hturn : Turn plain s before entry t)
    (hturn' : Turn plain' s' before' entry t') (hplain : name ∈ plain.names → name ∈ plain'.names)
    (hbefore : ∀ other ∈ before, other.1 = name → name ∈ s.names →
      name ∈ s'.names ∧ Precedes mirrors' other entry)
    (hin : name ∈ t.names) : name ∈ t'.names := by
  rcases (hturn.mem name).mp hin with hin | ⟨hadded, hin⟩
  · exact (hturn'.mem name).mpr (.inl (hplain hin))
  · obtain ⟨other, hother, rfl⟩ := List.mem_map.mp hin
    obtain ⟨hadded', hprecedes⟩ := hbefore other hother rfl hadded
    exact (h'.there_iff hsplit' hturn' hprecedes.mem hadded').mpr hprecedes

variable (h : Images plain mirrors s) (h' : Images plain' mirrors' s')
  (hperm : mirrors.Perm mirrors')

include h h' hperm

/-- If two lists give the same bones, an entry that looks for an image comes after the entry
that adds it in both lists or in neither. -/
theorem precedes_congr (hsame : ∀ name, s.bone? name = s'.bone? name) (hentry : entry ∈ mirrors)
    (hother : other ∈ mirrors) (hneeds : s.Needs entry other) :
    Precedes mirrors other entry ↔ Precedes mirrors' other entry := by
  obtain ⟨before, after, hsplit⟩ := List.append_of_mem hentry
  obtain ⟨before', after', hsplit'⟩ := List.append_of_mem (hperm.mem_iff.mp hentry)
  obtain ⟨t, ht⟩ := h.turn _ _ _ hsplit
  obtain ⟨t', ht'⟩ := h'.turn _ _ _ hsplit'
  obtain ⟨hadded, hlooks⟩ := hneeds
  have hadded' : other.1 ∈ s'.names := (mem_names_congr hsame _).mp hadded
  rw [← h.there_iff hsplit ht hother hadded,
    ← h'.there_iff hsplit' ht' (hperm.mem_iff.mp hother) hadded']
  have hfound : entry.2 ∈ t.names ↔ entry.2 ∈ t'.names := by
    rw [← ht.added_iff, ← ht'.added_iff, mem_names_congr hsame]
  rcases hlooks with hsource | ⟨himage, source, parent, hsource, hparent, hopposite, hne⟩
  · rwa [← hsource]
  · have hin := ht.added_iff.mp himage
    have hbone : t.bone? entry.2 = some source := (ht.kept _ hin).symm.trans hsource
    have hbone' : t'.bone? entry.2 = some source := by
      rw [← ht'.kept _ (hfound.mp hin), ← hsame, hsource]
    have himages := ht.image.symm.trans ((hsame _).trans ht'.image)
    rw [hbone, hbone'] at himages
    rw [← hopposite] at hne ⊢
    exact mirrorBone_eq_iff.mp (Option.some.inj himages) parent hparent hne

/-- If entries that look for images stand in the same order in two lists, the lists give the
same images: one after the other in the first list, because all that an entry finds has been
added by entries before it. -/
theorem bone?_eq_of_order (hplain : ∀ name, plain.bone? name = plain'.bone? name)
    (horder : ∀ entry ∈ mirrors, ∀ other ∈ mirrors, s.Needs entry other ∨ s'.Needs entry other →
      (Precedes mirrors other entry ↔ Precedes mirrors' other entry))
    {done rest : List (String × String)} (hsplit : mirrors = done ++ rest) (hin : entry ∈ done) :
    s.bone? entry.1 = s'.bone? entry.1 := by
  induction done using List.reverseRecOn generalizing entry rest with
  | nil => cases hin
  | append_singleton done last ih =>
      rw [List.append_assoc, List.singleton_append] at hsplit
      have hdone : ∀ other ∈ done, s.bone? other.1 = s'.bone? other.1 := fun other hother =>
        ih hsplit hother
      rcases List.mem_append.mp hin with hin | hin
      · exact hdone entry hin
      obtain rfl := List.mem_singleton.mp hin
      have hentry : entry ∈ mirrors := hsplit ▸ List.mem_append_right _ List.mem_cons_self
      obtain ⟨before', after', hsplit'⟩ := List.append_of_mem (hperm.mem_iff.mp hentry)
      obtain ⟨t, ht⟩ := h.turn _ _ _ hsplit
      obtain ⟨t', ht'⟩ := h'.turn _ _ _ hsplit'
      refine ht.bone?_eq ht' ?_ ?_ ?_
      -- what the entry finds is a plain bone or an image that entries before it have added
      · intro name hname
        rcases (ht.mem name).mp hname with hname | ⟨-, hname⟩
        · have hname' := (mem_names_congr hplain name).mp hname
          rw [h.added.kept _ hname, h'.added.kept _ hname', hplain]
        · obtain ⟨other, hother, rfl⟩ := List.mem_map.mp hname
          exact hdone other hother
      · intro name hlooks
        refine h'.there_of_there hsplit' ht ht' (mem_names_congr hplain name).mp ?_
        rintro other hother rfl hadded
        have hmem : other ∈ mirrors := hsplit ▸ List.mem_append_left _ hother
        refine ⟨by rwa [mem_names_iff, ← hdone other hother, ← mem_names_iff], ?_⟩
        exact (horder entry hentry other hmem (.inl ⟨hadded, hlooks⟩)).mp
          ⟨done, rest, hsplit, hother⟩
      · intro name hlooks
        refine h.there_of_there hsplit ht' ht (mem_names_congr hplain name).mpr ?_
        rintro other hother rfl hadded
        have hmem : other ∈ mirrors := hperm.mem_iff.mpr (hsplit' ▸ List.mem_append_left _ hother)
        have hbefore := (horder entry hentry other hmem (.inr ⟨hadded, hlooks⟩)).mpr
          ⟨before', after', hsplit', hother⟩
        -- only now is it known that the other entry is done in the first list too
        have hearlier := (precedes_iff h.nodup hsplit).mp hbefore
        exact ⟨by rwa [mem_names_iff, hdone other hearlier, ← mem_names_iff], hbefore⟩

/-- Two lists of the same mirror entries add the same images to the same plain bones exactly
if entries that look for images stand in the same order in both. -/
theorem bone?_eq_iff (hplain : ∀ name, plain.bone? name = plain'.bone? name) :
    (∀ name, s.bone? name = s'.bone? name) ↔
      ∀ entry ∈ mirrors, ∀ other ∈ mirrors, s.Needs entry other ∨ s'.Needs entry other →
        (Precedes mirrors other entry ↔ Precedes mirrors' other entry) := by
  constructor
  · intro hsame entry hentry other hother hneeds
    rcases hneeds with hneeds | hneeds
    · exact h.precedes_congr h' hperm hsame hentry hother hneeds
    · have hentry' := hperm.mem_iff.mp hentry
      have hother' := hperm.mem_iff.mp hother
      exact (h'.precedes_congr h hperm.symm (fun name => (hsame name).symm) hentry' hother'
        hneeds).symm
  · intro horder name
    by_cases hmirror : name ∈ mirrors.map Prod.fst
    · obtain ⟨entry, hentry, rfl⟩ := List.mem_map.mp hmirror
      exact h.bone?_eq_of_order h' hperm hplain horder (List.append_nil _).symm hentry
    · have hmirror' : name ∉ mirrors'.map Prod.fst := fun hin =>
        hmirror ((hperm.map Prod.fst).mem_iff.mpr hin)
      rw [h.added.bone?_eq hmirror, h'.added.bone?_eq hmirror', hplain]

end Images

/-! ### Plain bones -/

omit [Scalar α] in
theorem settled_congr {names names' : List String} (h : ∀ name, name ∈ names ↔ name ∈ names') :
    settled (α := α) names = settled names' := by
  funext bone
  simp only [settled, h]

omit [Scalar α] in
/-- Different bones are found under their names whatever order they are in. -/
theorem bone?_eq_of_perm (hperm : s.bones.Perm s'.bones) (hnodup : s.names.Nodup) (name : String) :
    s.bone? name = s'.bone? name := by
  have hnames : s.names.Perm s'.names := hperm.map Bone.name
  by_cases hin : name ∈ s.names
  · obtain ⟨bone, hbone⟩ := exists_bone?_of_mem hin
    obtain ⟨hmem, rfl⟩ := of_bone?_eq_some hbone
    rw [hbone, bone?_eq]
    exact (find?_eq_some_of_nodup (hnames.nodup hnodup) (hperm.mem_iff.mp hmem)).symm
  · rw [bone?_eq_none hin, bone?_eq_none fun hin' => hin (hnames.mem_iff.mpr hin')]

variable {items items' : List (Json α)} {entries entries' : List (BoneEntry α)}

/-- The bones of plain entries, without the parents that are not among them. -/
def plainBones (entries : List (BoneEntry α)) : List (Bone α) :=
  (plainEntries entries).map fun entry =>
    settled ((plainEntries entries).map BoneEntry.name) entry.bone

theorem map_name_plainBones (entries : List (BoneEntry α)) :
    (plainBones entries).map Bone.name = (plainEntries entries).map BoneEntry.name := by
  rw [plainBones, List.map_map]
  rfl

theorem plainBones_perm (hperm : entries.Perm entries') :
    (plainBones entries).Perm (plainBones entries') := by
  have hplain : (plainEntries entries).Perm (plainEntries entries') := hperm.filter _
  have hnames : ∀ name, name ∈ (plainEntries entries).map BoneEntry.name ↔
      name ∈ (plainEntries entries').map BoneEntry.name :=
    fun _ => (hplain.map BoneEntry.name).mem_iff
  rw [plainBones, plainBones, settled_congr hnames]
  exact hplain.map _

omit [Scalar α] in
/-- The names of plain and of mirror entries are different if those of all entries are. -/
theorem nodup_plain_append_mirrors (hdistinct : (entries.map BoneEntry.name).Nodup) :
    ((plainEntries entries).map BoneEntry.name ++ (mirrorEntries entries).map Prod.fst).Nodup := by
  have hmirrors : (mirrorEntries entries).map Prod.fst =
      (entries.filter fun entry => !entry.mirror.isNone).map BoneEntry.name := by
    rw [mirrorEntries, List.map_filterMap, ← List.filterMap_eq_filter, List.map_filterMap]
    refine List.filterMap_congr fun entry _ => ?_
    cases hmirror : entry.mirror <;> simp [Option.guard, hmirror]
  rw [hmirrors, plainEntries, ← List.map_append]
  have hall := List.filter_append_perm (fun entry : BoneEntry α => entry.mirror.isNone) entries
  exact ((hall.map BoneEntry.name).nodup_iff).mpr hdistinct

/-- A list on its own gives its plain bones and the images that its mirror entries add. -/
theorem exists_images (hdistinct : (entries.map BoneEntry.name).Nodup)
    (h : Returns (assemble [] entries epsilon) journal s journal') :
    ∃ plain : Skeleton α, plain.bones = plainBones entries ∧
      Images plain (mirrorEntries entries) s := by
  obtain ⟨added, plain, told, hoverlay, -, hplain, hmirrors⟩ := parts_of_returns_assemble h
  have hall : addedEntries [] (plainEntries entries) = plainEntries entries :=
    List.filter_eq_self.mpr fun _ _ => rfl
  have hadded := of_overlay_eq_ok hoverlay
  rw [hall, List.map_nil, List.nil_append, List.nil_append] at hadded
  have hbones : plain.bones = plainBones entries := by
    rw [(settled_of_returns_settleParents hplain).1, names, hadded, List.map_map, List.map_map]
    rfl
  refine ⟨plain, hbones, images_of_returns_addMirrors ?_ hmirrors⟩
  rw [names, hbones, map_name_plainBones]
  exact nodup_plain_append_mirrors hdistinct

/-! ### Written lists -/

theorem Written.eq (h : Written (.arr items) entries) (h' : Written (.arr items) entries') :
    entries = entries' := by
  obtain ⟨_, ⟨⟩, h⟩ := h
  obtain ⟨_, ⟨⟩, h'⟩ := h'
  exact Except.ok.inj (h.symm.trans h')

/-- A list that is written in another order has the same entries in another order. -/
theorem Written.perm (hperm : items.Perm items') (h : Written (.arr items) entries)
    (h' : Written (.arr items') entries') : entries.Perm entries' := by
  obtain ⟨_, ⟨⟩, hread⟩ := h
  obtain ⟨found, hfound, hsame⟩ :=
    List.perm_comp_forall₂ hperm.symm (Field.forall₂_of_items hread)
  have hwritten : Written (.arr items') found :=
    ⟨items', rfl, Field.items_eq_ok BoneEntry.everywhere_ofJson hfound⟩
  exact (hwritten.eq h' ▸ hsame).symm

/-- Two skeletons that the same entries give in two orders have the same bones, each with the
same parent and ends, exactly if every two mirror entries one of which looks for the image of
the other stand in the same order in both lists. -/
theorem ofList_reordered_iff (hperm : items.Perm items') (hentries : Written (.arr items) entries)
    (hentries' : Written (.arr items') entries')
    (hdistinct : (entries.map BoneEntry.name).Nodup) {told told' : Journal}
    (h : Returns (ofList (.arr items) epsilon) journal s told)
    (h' : Returns (ofList (.arr items') epsilon) journal' s' told') :
    (∀ name, s.bone? name = s'.bone? name) ↔
      ∀ entry ∈ mirrorEntries entries, ∀ other ∈ mirrorEntries entries,
        s.Needs entry other ∨ s'.Needs entry other →
          (Precedes (mirrorEntries entries) other entry ↔
            Precedes (mirrorEntries entries') other entry) := by
  have hsame : entries.Perm entries' := hentries.perm hperm hentries'
  obtain ⟨_, hread, hassemble⟩ := of_returns_ofList h
  obtain ⟨_, hread', hassemble'⟩ := of_returns_ofList h'
  obtain rfl := hread.eq hentries
  obtain rfl := hread'.eq hentries'
  obtain ⟨plain, hbones, himages⟩ := exists_images hdistinct hassemble
  obtain ⟨plain', hbones', himages'⟩ :=
    exists_images ((hsame.map BoneEntry.name).nodup hdistinct) hassemble'
  refine himages.bone?_eq_iff himages' (hsame.filterMap _) ?_
  refine bone?_eq_of_perm ?_ (List.nodup_append'.mp himages.distinct).1
  rw [hbones, hbones']
  exact plainBones_perm hsame

/-- An arm and a hand. -/
def leftLimbs : List (Json ℚ) :=
  [.obj [("bone", .str "arm_l"), ("head", .arr [.int 1, .int 0, .int 1]),
      ("tail", .arr [.int 5, .int 0, .int 1])],
    .obj [("bone", .str "hand_l"), ("parent", .str "arm_l"),
      ("head", .arr [.int 5, .int 0, .int 1]), ("tail", .arr [.int 6, .int 0, .int 1])]]

/-- Their images, the hand first. -/
def rightLimbs : List (Json ℚ) :=
  [.obj [("bone", .str "hand_r"), ("mirror", .str "hand_l")],
    .obj [("bone", .str "arm_r"), ("mirror", .str "arm_l")]]

/-- The entries for the left limbs. -/
def leftEntries : List (BoneEntry ℚ) :=
  [⟨"arm_l", some ⟨1, 0, 1⟩, some ⟨5, 0, 1⟩, none, none⟩,
    ⟨"hand_l", some ⟨5, 0, 1⟩, some ⟨6, 0, 1⟩, some "arm_l", none⟩]

/-- The entries for their images. -/
def rightEntries : List (BoneEntry ℚ) :=
  [⟨"hand_r", none, none, none, some "hand_l"⟩, ⟨"arm_r", none, none, none, some "arm_l"⟩]

theorem ofList_reordered_iff_limbs : ∃ s s' told told',
    Returns (ofList (.arr (leftLimbs ++ rightLimbs)) (1 / 1000)) Journal.empty s told ∧
      Returns (ofList (.arr (rightLimbs ++ leftLimbs)) (1 / 1000)) Journal.empty s' told' ∧
        ∀ name, s.bone? name = s'.bone? name := by
  have hseen : seen (ofList (.arr (leftLimbs ++ rightLimbs)) (1 / 1000)) Journal.empty
      (fun _ _ => true) = some true := by decide +kernel
  have hseen' : seen (ofList (.arr (rightLimbs ++ leftLimbs)) (1 / 1000)) Journal.empty
      (fun _ _ => true) = some true := by decide +kernel
  obtain ⟨s, told, h, -⟩ := exists_returns_of_seen hseen
  obtain ⟨s', told', h', -⟩ := exists_returns_of_seen hseen'
  have hentries : Written (.arr (leftLimbs ++ rightLimbs)) (leftEntries ++ rightEntries) :=
    ⟨_, rfl, by decide +kernel⟩
  have hentries' : Written (.arr (rightLimbs ++ leftLimbs)) (rightEntries ++ leftEntries) :=
    ⟨_, rfl, by decide +kernel⟩
  refine ⟨s, s', told, told', h, h', ?_⟩
  refine (ofList_reordered_iff List.perm_append_comm hentries hentries' (by decide) h h').mpr ?_
  exact fun _ _ _ _ _ => Iff.rfl

/-- With the image of the hand before that of the arm, the hand has the arm on the other side
as its parent, although the skeleton has the arm on its own side. With the two images in the
other order it has the latter. -/
theorem exists_reordered_parent : ∃ s s' told told',
    Written (.arr (leftLimbs ++ rightLimbs)) (leftEntries ++ rightEntries) ∧
      ((leftEntries ++ rightEntries).map BoneEntry.name).Nodup ∧
      (leftLimbs ++ rightLimbs).Perm (leftLimbs ++ rightLimbs.reverse) ∧
      Returns (ofList (.arr (leftLimbs ++ rightLimbs)) (1 / 1000)) Journal.empty s told ∧
      Returns (ofList (.arr (leftLimbs ++ rightLimbs.reverse)) (1 / 1000)) Journal.empty s' told' ∧
      s.contains "arm_r" = true ∧ (s.bone? "hand_r").map Bone.parent = some (some "arm_l") ∧
        (s'.bone? "hand_r").map Bone.parent = some (some "arm_r") := by
  have hseen : seen (ofList (.arr (leftLimbs ++ rightLimbs)) (1 / 1000)) Journal.empty
      (fun s _ => (s.contains "arm_r", (s.bone? "hand_r").map Bone.parent)) =
        some (true, some (some "arm_l")) := by decide +kernel
  have hseen' : seen (ofList (.arr (leftLimbs ++ rightLimbs.reverse)) (1 / 1000)) Journal.empty
      (fun s _ => (s.bone? "hand_r").map Bone.parent) = some (some (some "arm_r")) := by
    decide +kernel
  obtain ⟨s, told, h, hlook⟩ := exists_returns_of_seen hseen
  obtain ⟨s', told', h', hparent'⟩ := exists_returns_of_seen hseen'
  obtain ⟨hcontains, hparent⟩ := Prod.mk.inj hlook
  exact ⟨s, s', told, told', ⟨_, rfl, by decide +kernel⟩, by decide,
    (List.reverse_perm rightLimbs).symm.append_left leftLimbs, h, h', hcontains, hparent, hparent'⟩

end Skeleton

end Mannequin
