import K8sIpam.Api.Meta
import K8sIpam.Lib.Split

/-! # The text of a group, version and kind

`pkg/meta/gvk.go`: the text form that is kept in labels, and the way back, for the type of the
Kubernetes schema and for the message of the resource protocol. The writer leaves out what is empty;
the reader cuts at the first two dots. -/

namespace K8sIpam
open Split

/-- The message `resourcepb.GVK`. -/
structure ResourcePbGVK where
  group : String
  version : String
  kind : String
  deriving DecidableEq

def resourcePbGVKTostring (gvk : ResourcePbGVK) : String :=
  if gvk.kind = "" then "empty kind in gvk"
  else gvk.kind ++ (if gvk.version = "" then "" else "." ++ gvk.version) ++
    (if gvk.group = "" then "" else "." ++ gvk.group)

def getResourcePbGVKFromSchemaGVK (gvk : GroupVersionKind) : ResourcePbGVK :=
  ⟨gvk.group, gvk.version, gvk.kind⟩

def getSchemaGVKFromResourcePbGVK (gvk : ResourcePbGVK) : GroupVersionKind :=
  ⟨gvk.group, gvk.version, gvk.kind⟩

/-- The group, the version and the kind of a text. The source indexes the parts: with two dots there
are three of them. -/
def stringToGroupVersionKind (s : String) : String × String × String :=
  if 2 ≤ s.toList.count '.' then
    let parts := splitN '.' 3 s.toList
    (String.ofList (parts.getD 2 []), String.ofList (parts.getD 1 []),
      String.ofList (parts.getD 0 []))
  else ("", "", "")

def stringToGVK (s : String) : GroupVersionKind :=
  let (group, version, kind) := stringToGroupVersionKind s
  ⟨group, version, kind⟩

def stringToResourcePbGVK (s : String) : ResourcePbGVK :=
  let (group, version, kind) := stringToGroupVersionKind s
  ⟨group, version, kind⟩

/-- No part is empty, and neither the kind nor the version has a dot. The group may have any. -/
structure GroupVersionKind.Proper (g : GroupVersionKind) : Prop where
  kind_ne : g.kind ≠ ""
  version_ne : g.version ≠ ""
  group_ne : g.group ≠ ""
  kind_dotless : '.' ∉ g.kind.toList
  version_dotless : '.' ∉ g.version.toList

instance (g : GroupVersionKind) : Decidable g.Proper :=
  decidable_of_iff (g.kind ≠ "" ∧ g.version ≠ "" ∧ g.group ≠ "" ∧ '.' ∉ g.kind.toList ∧
      '.' ∉ g.version.toList)
    ⟨fun h => ⟨h.1, h.2.1, h.2.2.1, h.2.2.2.1, h.2.2.2.2⟩,
      fun h => ⟨h.kind_ne, h.version_ne, h.group_ne, h.kind_dotless, h.version_dotless⟩⟩

/-- A text of a kind, a version and a group, none of them empty. -/
def GvkText (s : String) : Prop :=
  2 ≤ s.toList.count '.' ∧ ∀ part ∈ splitN '.' 3 s.toList, part ≠ []

instance (s : String) : Decidable (GvkText s) := inferInstanceAs (Decidable (_ ∧ _))

/-! ## The two implementations -/

theorem resourcePbGVKTostring_eq (g : GroupVersionKind) :
    resourcePbGVKTostring (getResourcePbGVKFromSchemaGVK g) = gvkToString g := rfl

theorem stringToResourcePbGVK_eq (s : String) :
    stringToResourcePbGVK s = getResourcePbGVKFromSchemaGVK (stringToGVK s) := rfl

theorem getSchemaGVKFromResourcePbGVK_eq (g : GroupVersionKind) :
    getSchemaGVKFromResourcePbGVK (getResourcePbGVKFromSchemaGVK g) = g := rfl

/-! ## Round trips -/

section
variable {g g' : GroupVersionKind} {s : String}

theorem GroupVersionKind.Proper.gvkToString_eq (hg : g.Proper) :
    gvkToString g = g.kind ++ "." ++ g.version ++ "." ++ g.group := by
  rw [gvkToString, if_neg hg.kind_ne, if_neg hg.version_ne, if_neg hg.group_ne, ← String.append_assoc,
    ← String.append_assoc]

theorem GroupVersionKind.Proper.toList_gvkToString (hg : g.Proper) :
    (gvkToString g).toList = g.kind.toList ++ '.' :: (g.version.toList ++ '.' :: g.group.toList) := by
  simp [hg.gvkToString_eq]

/-- What is written is read back. -/
theorem GroupVersionKind.Proper.stringToGVK_gvkToString (hg : g.Proper) :
    stringToGVK (gvkToString g) = g := by
  have hsplit : splitN '.' 3 (gvkToString g).toList =
      [g.kind.toList, g.version.toList, g.group.toList] := by
    rw [hg.toList_gvkToString, splitN_append hg.kind_dotless, splitN_append hg.version_dotless, splitN]
  have hcount : 2 ≤ (gvkToString g).toList.count '.' := by
    rw [hg.toList_gvkToString]
    simp only [List.count_append, List.count_cons_self]
    omega
  rw [stringToGVK, stringToGroupVersionKind, if_pos hcount, hsplit]
  simp

/-- What is read is written back. -/
theorem GvkText.gvkToString_stringToGVK (hs : GvkText s) : gvkToString (stringToGVK s) = s := by
  obtain ⟨hcount, hparts⟩ := hs
  obtain ⟨kind, version, group, hkind, hversion, htext, hsplit⟩ := exists_splitN_three hcount
  rw [hsplit] at hparts
  have hread : stringToGVK s =
      ⟨String.ofList group, String.ofList version, String.ofList kind⟩ := by
    rw [stringToGVK, stringToGroupVersionKind, if_pos hcount, hsplit]
    rfl
  have hne : ∀ part ∈ [kind, version, group], String.ofList part ≠ "" := by
    intro part hpart h
    exact hparts part hpart (by simpa using congrArg String.toList h)
  have hproper : (stringToGVK s).Proper := by
    rw [hread]
    exact ⟨hne kind (by simp), hne version (by simp), hne group (by simp), by simpa using hkind,
      by simpa using hversion⟩
  rw [← String.toList_inj, hproper.toList_gvkToString, htext, hread]
  simp

/-- The text tells kinds apart. -/
theorem GroupVersionKind.Proper.gvkToString_inj (hg : g.Proper) (hg' : g'.Proper) :
    gvkToString g = gvkToString g' ↔ g = g' := by
  refine ⟨fun h => ?_, congrArg gvkToString⟩
  rw [← hg.stringToGVK_gvkToString, h, hg'.stringToGVK_gvkToString]

end
end K8sIpam
