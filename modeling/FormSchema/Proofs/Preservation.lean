import FormSchema.Proofs.Outcome
import FormSchema.Proofs.Sample

namespace FormSchema.Item

/-- Among the children of a reconciled item are those that were there, and those reconciled with a
part of the sample. -/
private theorem forall_mem_childrenFor {p : Item → Prop} (hmoved : ∀ {item} n, p item → p (item.movedTo n))
    {ctx : Context} {path : String} {kind : FieldType} {old : Schema} {sample : Option Json}
    (hold : old.WellKeyed) (hsample : WellFormedSample sample) (hkept : ∀ entry ∈ old, p entry.2)
    (htemplate : kind = .array → p (reconcile ctx.enterArray (.template path)
      (OrderedMap.get? old Identifier.arrayItem) (representative sample)))
    (hfields : ∀ entries, sample = some (.object entries) → ∀ key value identifier previous,
      OrderedMap.get? entries key = some value →
      (∀ field, previous = some field → (identifier, field) ∈ old) →
      p (reconcile ctx (.field key identifier path) previous (some value))) :
    ∀ entry ∈ childrenFor ctx path kind old sample, p entry.2 := by
  intro entry hentry
  rcases childrenFor_cases ctx path kind old sample with ⟨harray, heq⟩ | ⟨entries, -, rfl, heq⟩ | ⟨-, -, heq⟩
  · rw [heq] at hentry
    rw [List.mem_singleton.mp hentry]
    exact hmoved _ (htemplate harray)
  · rw [heq] at hentry
    rcases Schema.mem_reconcileLevel hold hsample.distinct hentry with
      ⟨field, n, hfield, -, hitem⟩ | ⟨value, previous, n, hvalue, hprevious, -, hitem⟩
    · rw [hitem]
      exact hmoved n (hkept _ hfield)
    · rw [hitem]
      apply hmoved n
      exact hfields entries rfl _ value entry.1 previous hvalue fun old hold => (hprevious old hold).1
  · rw [heq] at hentry
    exact hkept entry hentry

/-- What a property must do to hold of a whole reconciled tree. Samples are good ones, items are built
for certain specifications and samples, and only certain samples come to an item. -/
structure Preserved (p : Item → Prop) (good : Option Json → Prop) (built : ItemSpec → Option Json → Prop)
    (comesTo : Option Json → Item → Prop) : Prop where
  samples : Hereditary good
  keyed : ∀ {item}, p item → Schema.WellKeyed item.children
  moved : ∀ {item} n, p item → p (item.movedTo n)
  kept : ∀ {item sample}, good sample → p item → comesTo sample item → item.Frozen sample →
    p (item.recording sample)
  refreshed : ∀ {item sample} ctx path, good sample → p item → comesTo sample item → item.Matches sample →
    p (refresh ctx path item sample)
  rebuilt : ∀ {item sample ctx spec previous}, good sample → (∀ old, previous = some old → p old) →
    built spec sample → BuiltFrom ctx spec previous sample item → p item
  field : ∀ key identifier path sample, built (.field key identifier path) sample
  template : ∀ path sample, built (.template path) sample
  toField : ∀ item value, comesTo (some value) item
  toTemplate : ∀ {item sample template}, good sample → p item → comesTo sample item → item.Matches sample →
    item.fieldType = .array → OrderedMap.get? item.children Identifier.arrayItem = some template →
    comesTo (representative sample) template

namespace Preserved
variable {p : Item → Prop} {good : Option Json → Prop} {built : ItemSpec → Option Json → Prop}
  {comesTo : Option Json → Item → Prop}

theorem everywhere_movedTo (hp : Preserved p good built comesTo) {item : Item} (h : item.Everywhere p) (n : Int) :
    (item.movedTo n).Everywhere p := .intro (hp.moved n h.here) h.inside

theorem everywhere_reconcile (hp : Preserved p good built comesTo) {sample : Option Json} (hsample : good sample)
    {previous : Option Item} (hprevious : ∀ item, previous = some item → item.Everywhere p ∧ comesTo sample item)
    {spec : ItemSpec} (hspec : built spec sample) (ctx : Context) :
    (reconcile ctx spec previous sample).Everywhere p := by
  revert ctx hspec hprevious hsample
  refine reconcile_induction (motive := fun spec previous sample => good sample →
    (∀ item, previous = some item → item.Everywhere p ∧ comesTo sample item) → built spec sample →
    ∀ ctx, (reconcile ctx spec previous sample).Everywhere p) ?_ spec previous sample
  intro spec previous sample ihfield ihtemplate ihfresh hsample hprevious hspec ctx
  have hwell := hp.samples.wellFormed hsample
  rcases reconcile_cases ctx spec previous sample with
    ⟨item, rfl, hfrozen, heq⟩ | ⟨item, rfl, hmatches, heq⟩ | ⟨-, hbuilt⟩
  · obtain ⟨hitem, hcomes⟩ := hprevious item rfl
    rw [heq]
    exact .intro (hp.kept hsample hitem.here hcomes hfrozen) hitem.inside
  · obtain ⟨hitem, hcomes⟩ := hprevious item rfl
    rw [heq]
    apply Everywhere.intro
    · exact hp.refreshed ctx spec.sourcePath hsample hitem.here hcomes hmatches
    · refine forall_mem_childrenFor (p := Everywhere p) (fun n h => hp.everywhere_movedTo h n)
        (hp.keyed hitem.here) hwell hitem.inside (fun hkind => ?_)
        fun entries hentries key value identifier previous hget hold => ?_
      · refine ihtemplate item _ rfl (hp.samples.representative hsample) (fun template htemplate => ?_)
          (hp.template ..) _
        refine ⟨hitem.inside _ (OrderedMap.mem_of_get?_eq_some htemplate), ?_⟩
        exact hp.toTemplate hsample hitem.here hcomes hmatches hkind htemplate
      · exact ihfield entries key value hentries hget _ previous (hp.samples.value (hentries ▸ hsample) hget)
          (fun field hfield => ⟨hitem.inside _ (hold field hfield), hp.toField ..⟩) (hp.field ..) ctx
  · apply Everywhere.intro
    · exact hp.rebuilt hsample (fun old hold => (hprevious old hold).1.here) hspec hbuilt
    · rw [hbuilt.children]
      refine forall_mem_childrenFor (p := Everywhere p) (fun n h => hp.everywhere_movedTo h n) .nil hwell
        (by simp) (fun harray => ?_) fun entries hentries key value identifier previous hget hold => ?_
      · refine ihfresh _ (fun hnone => ?_) (hp.samples.representative hsample) (by simp) (hp.template ..) _
        subst hnone
        rw [← hbuilt.kind_of_none, harray]
      · refine ihfield entries key value hentries hget _ previous (hp.samples.value (hentries ▸ hsample) hget)
          (fun field hfield => ?_) (hp.field ..) ctx
        cases hold field hfield

end Preserved

/-- The identifier of a reconciled item is the one it had, or the one it was to get. -/
theorem reconcile_identifier {ctx : Context} {spec : ItemSpec} {previous : Option Item} {sample : Option Json}
    (h : ∀ old, previous = some old → old.identifier = spec.identifier) :
    (reconcile ctx spec previous sample).identifier = spec.identifier := by
  cases previous with
  | none =>
    rw [reconcile_none]
    exact build_identifier ..
  | some old => exact (reconcile_sameField ..).identifier.trans (h old rfl)

private theorem wellKeyed_childrenFor {old : Schema} (hold : old.WellKeyed) {sample : Option Json}
    (hsample : WellFormedSample sample) (ctx : Context) (path : String) (kind : FieldType) :
    Schema.WellKeyed (childrenFor ctx path kind old sample) := by
  rcases childrenFor_cases ctx path kind old sample with ⟨-, heq⟩ | ⟨entries, -, rfl, heq⟩ | ⟨-, -, heq⟩
  · rw [heq]
    apply Schema.WellKeyed.singleton
    exact reconcile_identifier fun template htemplate => hold.named _ (OrderedMap.mem_of_get?_eq_some htemplate)
  · rw [heq]
    exact Schema.wellKeyed_reconcileLevel hold hsample.distinct ctx path
  · rw [heq]
    exact hold

theorem preserved_wellKeyed : Preserved (fun item => Schema.WellKeyed item.children) WellFormedSample
    (fun _ _ => True) fun _ _ => True where
  samples := hereditary_wellFormed
  keyed h := h
  moved _ h := h
  kept _ h _ _ := h
  refreshed ctx path hsample h _ _ := wellKeyed_childrenFor h hsample ctx path _
  rebuilt hsample _ _ hbuilt := hbuilt.children ▸ wellKeyed_childrenFor .nil hsample ..
  field _ _ _ _ := trivial
  template _ _ := trivial
  toField _ _ := trivial
  toTemplate _ _ _ _ _ _ := trivial

end FormSchema.Item
