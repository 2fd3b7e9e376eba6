import MentorAllocation.Audit.Proofs.Archive
import MentorAllocation.Text.JsonSorted

namespace Audit
open Data Sorting Text

/-- An artifact of the release manifest that has a name. -/
def Named (item : Json) : Prop :=
  ∃ members name, item = .obj members ∧ members.lookup "name" = some (.str name)

/-- What is read of the release manifest before it is updated. -/
def manifestOf (L : Library) : Option (List UInt8) → Except Raised Json
  | some bytes => loadsBytes L bytes
  | none => .ok (.obj [("audit", .obj [("artifacts", .arr [])])])

/-- The release manifest can be read, and its artifacts have names. -/
def Releasable (L : Library) (release : Option (List UInt8)) : Prop :=
  ∃ sections audit items, manifestOf L release = .ok (.obj sections) ∧
    Json.Valid L.floatRepr (.obj sections) ∧
    (sections.lookup "audit").getD (.obj []) = .obj audit ∧
    (audit.lookup "artifacts").getD (.arr []) = .arr items ∧ ∀ item ∈ items, Named item

theorem releasable_none (L : Library) : Releasable L none :=
  ⟨[("audit", .obj [("artifacts", .arr [])])], [("artifacts", .arr [])], [], rfl,
    by simp [Json.Valid, Json.ValidMembers, Json.ValidItems], rfl, rfl,
    fun _ h => absurd h List.not_mem_nil⟩

theorem withoutText_named (name : String) {items : List Json} (h : ∀ item ∈ items, Named item) :
    ∃ kept, withoutText "name" name items = .ok kept ∧ kept ⊆ items := by
  unfold withoutText
  induction items with
  | nil => exact ⟨[], rfl, List.Subset.refl _⟩
  | cons item items ih =>
    obtain ⟨hitem, hitems⟩ := List.forall_mem_cons.mp h
    obtain ⟨kept, hkept, hsub⟩ := ih hitems
    obtain ⟨members, found, rfl, hfound⟩ := hitem
    have htext : unlessText "name" name (.obj members) =
        .ok (if found = name then none else some (.obj members)) := by
      simp only [unlessText, member?, hfound, ok_bind]
      rfl
    rw [List.filterMapM_cons, htext, ok_bind, hkept]
    by_cases hname : found = name
    · rw [if_pos hname]
      exact ⟨kept, rfl, fun _ hmem => List.mem_cons_of_mem _ (hsub hmem)⟩
    · rw [if_neg hname]
      exact ⟨.obj members :: kept, rfl, List.cons_subset_cons _ hsub⟩

theorem sortByText_named {items : List Json} (h : ∀ item ∈ items, Named item) :
    ∃ out, sortByText "name" items = .ok out ∧ out.Perm items := by
  have hkeyed : ∃ keyed, items.mapM (textUnder "name") = .ok keyed ∧
      keyed.map Prod.snd = items := by
    induction items with
    | nil => exact ⟨[], rfl, rfl⟩
    | cons item items ih =>
      obtain ⟨hitem, hitems⟩ := List.forall_mem_cons.mp h
      obtain ⟨keyed, hkeyed, hsnd⟩ := ih hitems
      obtain ⟨members, found, rfl, hfound⟩ := hitem
      have htext : textUnder "name" (.obj members) = .ok (found, .obj members) := by
        simp only [textUnder, member, hfound, ok_bind]
        rfl
      refine ⟨(found, .obj members) :: keyed, ?_, by rw [List.map_cons, hsnd]⟩
      rw [List.mapM_cons, htext, ok_bind, hkeyed]
      rfl
  obtain ⟨keyed, hmap, hsnd⟩ := hkeyed
  refine ⟨(sortedBy Prod.fst keyed).map Prod.snd, ?_, ?_⟩
  · rw [sortByText, hmap]
    rfl
  · rw [← hsnd]
    exact (sortedBy_perm _ _).map _

theorem named_sorted {item : Json} {floatRepr : String → String} (h : Named item)
    (hvalid : Json.Valid floatRepr item) : Named item.sorted := by
  obtain ⟨members, name, rfl, hname⟩ := h
  rw [Json.Valid] at hvalid
  refine ⟨_, name, Json.sorted_obj _, ?_⟩
  rw [Json.lookup_inOrder hvalid.1, hname]
  rfl

theorem valid_upsert {floatRepr : String → String} {value : Json}
    {members : List (String × Json)} (h : Json.Valid floatRepr (.obj members)) (key : String)
    (hvalue : Json.Valid floatRepr value) :
    Json.Valid floatRepr (.obj (upsert key value members)) := by
  rw [Json.Valid, Json.validMembers_iff] at h ⊢
  have hnodup := nodup_upsert h.1 key value
  refine ⟨hnodup, fun m hm => ?_⟩
  have hlookup := (mem_iff_lookup hnodup m.1 m.2).mp hm
  rw [lookup_upsert] at hlookup
  split at hlookup
  · rw [← Option.some.inj hlookup]
    exact hvalue
  · exact h.2 m ((mem_iff_lookup h.1 m.1 m.2).mpr hlookup)

/-- What is under a key, or stands in its place, is valid with the object. -/
theorem valid_lookup {floatRepr : String → String} {value : Json}
    {members : List (String × Json)} (h : Json.Valid floatRepr (.obj members)) (key : String)
    (hvalue : Json.Valid floatRepr value) :
    Json.Valid floatRepr ((members.lookup key).getD value) := by
  rw [Json.Valid, Json.validMembers_iff] at h
  cases hlookup : members.lookup key with
  | none => exact hvalue
  | some found => exact h.2 _ ((mem_iff_lookup h.1 key found).mpr hlookup)

/-- An entry as the release manifest lists it. -/
def entryJson (entry : ManifestEntry) : Json :=
  .obj [("name", .str entry.name), ("sha256", .str entry.sha256), ("size", .int entry.size),
    ("ts", .str entry.ts), ("kind", .str entry.kind)]

theorem update_eq (L : Library) (release : Option (List UInt8)) (entry : ManifestEntry) :
    ReleaseManifest.update L release entry = (do
      let .obj sections ← manifestOf L release | throw .attributeError
      let .obj audit := (sections.lookup "audit").getD (.obj []) | throw .attributeError
      let items ← iterate ((audit.lookup "artifacts").getD (.arr []))
      let kept ← withoutText "name" entry.name items
      let artifacts ← sortByText "name" (kept ++ [entryJson entry])
      return encode (Json.dumps { Json.Style.compact with sortKeys := true }
        (.obj (upsert "audit" (.obj (upsert "artifacts" (.arr artifacts) audit)) sections)))) := by
  cases release <;> rfl

/-- The release manifest can be updated, and updated again after it. -/
theorem update_releasable {L : Library} {release : Option (List UInt8)} (entry : ManifestEntry)
    (h : Releasable L release) (hsize : (intStr entry.size).isSome) :
    ∃ bytes, ReleaseManifest.update L release entry = .ok bytes ∧ Releasable L (some bytes) := by
  obtain ⟨sections, audit, items, hmanifest, hvalid, haudit, hitems, hnamed⟩ := h
  have hauditValid : Json.Valid L.floatRepr (.obj audit) := by
    rw [← haudit]
    exact valid_lookup hvalid _ (by simp [Json.Valid, Json.ValidMembers])
  have hitemsValid : ∀ item ∈ items, Json.Valid L.floatRepr item := by
    have hempty : Json.Valid L.floatRepr (.arr []) := trivial
    have hall := valid_lookup hauditValid "artifacts" hempty
    rw [hitems, Json.Valid, Json.validItems_iff] at hall
    exact hall
  have hitem : Named (entryJson entry) ∧ Json.Valid L.floatRepr (entryJson entry) :=
    ⟨⟨_, entry.name, rfl, rfl⟩, by simp [entryJson, Json.Valid, Json.ValidMembers, hsize]⟩
  obtain ⟨kept, hkept, hsub⟩ := withoutText_named entry.name hnamed
  have hboth : ∀ other ∈ kept ++ [entryJson entry], Named other ∧ Json.Valid L.floatRepr other := by
    intro other hother
    rcases List.mem_append.mp hother with hold | hnew
    · exact ⟨hnamed other (hsub hold), hitemsValid other (hsub hold)⟩
    · rw [List.mem_singleton.mp hnew]
      exact hitem
  obtain ⟨artifacts, hartifacts, hperm⟩ := sortByText_named fun other hother =>
    (hboth other hother).1
  have hartifactsValid : Json.Valid L.floatRepr (.arr artifacts) := by
    rw [Json.Valid, Json.validItems_iff]
    exact fun other hother => (hboth other (hperm.mem_iff.mp hother)).2
  let audit' := upsert "artifacts" (.arr artifacts) audit
  have hauditValid' : Json.Valid L.floatRepr (.obj audit') :=
    valid_upsert hauditValid _ hartifactsValid
  have hwritten : Json.Valid L.floatRepr (.obj (upsert "audit" (.obj audit') sections)) :=
    valid_upsert hvalid _ hauditValid'
  have hnodup := hauditValid'
  rw [Json.Valid] at hnodup
  have hwrittenNodup := hwritten
  rw [Json.Valid] at hwrittenNodup
  refine ⟨encode (Json.dumps { Json.Style.compact with sortKeys := true }
    (.obj (upsert "audit" (.obj audit') sections))), ?_, ?_⟩
  · rw [update_eq, hmanifest, ok_bind]
    dsimp only
    rw [haudit]
    dsimp only
    have hiterate : iterate (.arr items) = .ok items := rfl
    rw [hitems, hiterate, ok_bind, hkept, ok_bind, hartifacts]
    rfl
  · refine ⟨Json.inOrder (upsert "audit" (.obj audit') sections), Json.inOrder audit',
      artifacts.map Json.sorted, ?_, ?_, ?_, ?_, ?_⟩
    · rw [manifestOf, loadsBytes, decode_encode]
      dsimp only [Option.bind_some]
      rw [Json.loads_dumps_sortKeys Json.separators_compact hwritten, Json.sorted_obj]
    · rw [← Json.sorted_obj]
      exact Json.valid_sorted _ hwritten
    · rw [Json.lookup_inOrder hwrittenNodup.1, lookup_upsert, if_pos rfl, Option.map_some,
        Json.sorted_obj]
      rfl
    · rw [Json.lookup_inOrder hnodup.1, lookup_upsert, if_pos rfl, Option.map_some,
        Json.sorted_arr]
      rfl
    · rw [List.forall_mem_map]
      intro other hother
      exact named_sorted (hboth other (hperm.mem_iff.mp hother)).1
        (hboth other (hperm.mem_iff.mp hother)).2

end Audit
