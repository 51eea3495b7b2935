-- SUMMARY: A plan refuses the storage of another index space only if it has another number of slots.
import HaloMesh.Proofs.CopyPlan.Frame

/-!
# Plans and foreign storage

Before a refresh a plan compares the color and the number of slots of a region with its own, and the region
compares its index space with that of the field. Neither compares the index space of the plan. So among the
regions of its color a plan tells those of another index space apart by their numbers of slots alone. Where
these agree, it takes the storage for its own: it fills the slots that are ghosts in its own layout,
whatever they are in that of the region.
-/

namespace HaloMesh

/-- The region is storage of a color of an index space. -/
structure Region.Belongs (region : Region) (coloring : Coloring) (space color : Nat) : Prop where
  indexSpace_eq : region.indexSpace = space
  color_eq : region.color = color
  size_eq : ∃ parts me, coloring.parts[space]? = some parts ∧ parts[color]? = some me ∧
    me.size = .ok region.length

namespace CopyPlan

variable {coloring : Coloring} {space other color : Nat} {p : CopyPlan} {info : FieldInfo}
  {region : Region} {transport : Transport} {history : History}

/-- A plan is made for the storage of its color. -/
theorem size_eq_of_ofColoring (hplan : ofColoring coloring space color = .ok p) :
    p.color = color ∧ ∃ parts me, coloring.parts[space]? = some parts ∧ parts[color]? = some me ∧
      me.size = .ok p.slots := by
  rw [ofColoring, if_pos (space_lt_of_ofColoring hplan), Checked.liftM_eq_ok_iff] at hplan
  simp only [derive, Checked.bind_eq_ok_iff, fetch_eq_ok_iff, Checked.pure_eq_ok,
    Except.ok.injEq] at hplan
  obtain ⟨_, -, _, -, parts, hparts, me, hme, slots, hslots, -, -, rfl⟩ := hplan
  exact ⟨rfl, parts, me, hparts, hme, hslots⟩

/-- Another number of slots is refused. -/
theorem refresh_over_of_length_ne (hne : region.length ≠ p.slots) :
    (p.refresh info).Ends transport history region []
      (.error (.reported (.invariant (.foreignRegion p.color p.slots region.color region.length))))
      region := by
  have hforeign : p.checkRegion region =
      .error (.invariant (.foreignRegion p.color p.slots region.color region.length)) :=
    if_neg fun h => hne h.2
  exact CommState.Ends.get.bind_silent ((CommState.Ends.of_reported hforeign).fail _)

/-- A refresh of the storage of another index space is refused if that has another number of slots. Otherwise
it goes on as on the storage that the plan is made for. -/
theorem refresh_on_other_space {spec : ColoringSpec} (hof : Coloring.ofSpec spec = .ok coloring)
    (hplan : ofColoring coloring space color = .ok p)
    (hregion : region.Belongs coloring other color) (hinfo : info.indexSpace = other)
    (transport : Transport) (history : History) :
    ∃ parts me, coloring.parts[space]? = some parts ∧ parts[color]? = some me ∧
      me.size = .ok p.slots ∧
      (region.length ≠ p.slots → (p.refresh info).Ends transport history region []
        (.error (.reported (.invariant (.foreignRegion color p.slots color region.length)))) region) ∧
      (region.length = p.slots → ∀ sizes, region.Sized sizes → region.HasRoom info →
        (∃ buffer, region.buffer? info.field = some buffer ∧ buffer.typeSize ≠ info.typeSize ∧
          (p.refresh info).Ends transport history region []
            (.error (.reported (.fieldTypeSize info.field buffer.typeSize info.typeSize))) region) ∨
        ∃ (logs : List LogRecord) (replies : List (Option Bytes)) (es : List Event)
            (region' : Region) (data : Bytes), replies.length = p.remoteSources.length ∧
          es = logs.map .logged ++ p.events info.typeSize (region.stored info) replies ∧
          (p.refresh info).Ends transport history region es
            (ending ((p.remoteSources.zip replies).findSome? (lack? info.typeSize))) region' ∧
          (history.extend es).sent = history.sent ++ p.messages info.typeSize (region.stored info) ∧
          p.Refills info replies region region' data ∧
          (spec.Representable → p.Frames me info replies region region' data)) := by
  obtain ⟨hcolor, parts, me, hparts, hme, hsize⟩ := size_eq_of_ofColoring hplan
  refine ⟨parts, me, hparts, hme, hsize, fun hne => ?_, fun heq sizes hsized hroom => ?_⟩
  · have hrefused := @refresh_over_of_length_ne p info region transport history hne
    rwa [hcolor, hregion.color_eq] at hrefused
  · have hcolorEq := hregion.color_eq.trans hcolor.symm
    have hspaceEq := hinfo.trans hregion.indexSpace_eq.symm
    by_cases hsizes : ∃ buffer, region.buffer? info.field = some buffer ∧ buffer.typeSize ≠ info.typeSize
    · obtain ⟨buffer, hbuffer, hne⟩ := hsizes
      refine .inl ⟨buffer, hbuffer, hne, refresh_over_of_objection? ?_ hroom⟩
      rw [objection?, if_neg (by simp [hcolorEq, heq]), if_neg (not_not_intro hspaceEq), hbuffer]
      exact if_neg hne
    · have hadmits : region.Admits info :=
        ⟨hspaceEq, fun buffer hbuffer => by_contra fun hne => hsizes ⟨buffer, hbuffer, hne⟩, hroom⟩
      have haccepts : p.Accepts info region := ⟨hcolorEq, heq, hadmits⟩
      obtain ⟨logs, replies, es, region', data, hreplies, hes, hends, hsent, hrefills⟩ :=
        haccepts.exists_refills (sound_of_ofColoring hof hplan) hsized transport history
      refine .inr ⟨logs, replies, es, region', data, hreplies, hes, hends, hsent, hrefills, fun hrep => ?_⟩
      obtain ⟨d, parts', h⟩ := Coloring.exists_hasSpace hrep hof (space_lt_of_ofColoring hplan)
      cases hparts.symm.trans h.records
      obtain ⟨hlt, rfl⟩ := List.getElem?_eq_some_iff.mp hme
      cases hplan.symm.trans (ofColoring_eq_plansOf h hlt)
      exact hrefills.frames h hlt

/-! ## Two spaces with equally many slots -/

/-- Two indices with a ghost on each side, and four indices without ghosts. -/
def twoRings : ColoringSpec := ⟨[⟨[1], [2], [1], [0], [true]⟩, ⟨[1], [4], [0], [0], [true]⟩]⟩

/-- What the only color stores of the four indices. -/
def ringWithoutGhosts : IndexColoring := ⟨[4], [0], [4], ⟨[0], [4]⟩, ⟨[0], [4]⟩, 0⟩

/-- The coloring of the two rings. -/
def coloredRings : Coloring :=
  ⟨twoRings, 1, [[⟨[2], [0], [4], ⟨[0], [2]⟩, ⟨[0], [2]⟩, 0⟩], [ringWithoutGhosts]]⟩

/-- The plan of the only color on the two indices, which copies them to the ghosts on the other side. -/
def planWithGhosts : CopyPlan :=
  ⟨0, 0, 4, tagOf 0, [(0, [⟨0, 1, 0, 2⟩, ⟨3, 1, 0, 1⟩])], [(0, [⟨0, 1, 0, 2⟩, ⟨3, 1, 0, 1⟩])]⟩

/-- The storage of the four indices, with a field of one byte for each. -/
def regionWithoutGhosts (bytes : Bytes) : Region := ⟨1, 0, 4, [(7, ⟨bytes, 1, false⟩)]⟩

theorem plan_coloredRings : ofColoring coloredRings 0 0 = .ok planWithGhosts := by
  have hrep : twoRings.Representable := by decide
  have hof : Coloring.ofSpec twoRings = .ok coloredRings := rfl
  have hspace : 0 < coloredRings.indexSpaces := by decide
  have hdefinition : coloredRings.spec.indexSpaces[0]? = some ⟨[1], [2], [1], [0], [true]⟩ := rfl
  have hcolor : 0 < coloredRings.colors := by decide
  rw [ofColoring_eq_planOf hrep hof hspace hdefinition hcolor]
  rfl

theorem belongs_regionWithoutGhosts (bytes : Bytes) : (regionWithoutGhosts bytes).Belongs coloredRings 1 0 :=
  ⟨rfl, rfl, _, _, rfl, rfl, rfl⟩

/-- The plan of the two indices runs on the storage of the four, and says that its ghosts are its own. -/
theorem refresh_on_other_ring :
    let region : Region := regionWithoutGhosts [0x11, 0x12, 0x13, 0x14]
    twoRings.Representable ∧ Coloring.ofSpec twoRings = .ok coloredRings ∧
      ofColoring coloredRings 0 0 = .ok planWithGhosts ∧
      region.Belongs coloredRings 1 0 ∧
      ∃ parts me, coloredRings.parts[0]? = some parts ∧ parts[0]? = some me ∧ me.size = .ok 4 ∧
        ∃ (replies : List (Option Bytes)) (es : List Event) (region' : Region) (data : Bytes),
          (planWithGhosts.refresh ⟨7, 1, 1⟩).Ends (fun _ _ _ _ => none) [] region es
            (ending ((planWithGhosts.remoteSources.zip replies).findSome? (lack? 1))) region' ∧
          planWithGhosts.Refills ⟨7, 1, 1⟩ replies region region' data ∧
          planWithGhosts.Frames me ⟨7, 1, 1⟩ replies region region' data := by
  intro region
  have hrep : twoRings.Representable := by decide
  have hof : Coloring.ofSpec twoRings = .ok coloredRings := rfl
  have hregion : region.Belongs coloredRings 1 0 := belongs_regionWithoutGhosts _
  obtain ⟨parts, me, hparts, hme, hsize, -, hruns⟩ := refresh_on_other_space hof plan_coloredRings hregion
    (rfl : (⟨7, 1, 1⟩ : FieldInfo).indexSpace = 1) (fun _ _ _ _ => none) []
  have hsized : region.Sized fun _ => 1 := by
    intro field buffer hbuffer
    obtain ⟨entry, hentry, rfl⟩ := Option.map_eq_some_iff.mp hbuffer
    obtain rfl := List.mem_singleton.mp (List.mem_of_find?_eq_some hentry)
    exact ⟨rfl, rfl⟩
  have hroom : region.HasRoom ⟨7, 1, 1⟩ :=
    show Region.chunked (4 * 1) ≤ Word.bufferLimit by decide
  refine ⟨hrep, hof, plan_coloredRings, hregion, parts, me, hparts, hme, hsize, ?_⟩
  rcases hruns rfl _ hsized hroom with ⟨buffer, hbuffer, hne, -⟩ | hframes
  · cases hbuffer
    exact absurd rfl hne
  · obtain ⟨_, replies, es, region', data, -, -, hends, -, hrefills, hframes⟩ := hframes
    exact ⟨replies, es, region', data, hends, hrefills, hframes hrep⟩

/-- The plan of the two indices writes to the first and the last of the four, all of which the color owns,
and it reports nothing. -/
theorem refresh_overwrites_other_space :
    Coloring.ofSpec twoRings = .ok coloredRings ∧ ofColoring coloredRings 0 0 = .ok planWithGhosts ∧
      (regionWithoutGhosts [0x11, 0x12, 0x13, 0x14]).Belongs coloredRings 1 0 ∧
      (∀ i < 4, ringWithoutGhosts.IsOwned [i] ∧ ringWithoutGhosts.linear [i] = .ok i) ∧
      (((planWithGhosts.refresh ⟨7, 1, 1⟩).run.run (regionWithoutGhosts [0x11, 0x12, 0x13, 0x14])).runOver
        (fun _ _ _ _ => none) []).1 = (.ok (), regionWithoutGhosts [0x13, 0x12, 0x13, 0x12]) := by
  have hslots : ∀ i < 4, ringWithoutGhosts.linear [i] = .ok i := by decide
  have howned : ∀ i < 4, ringWithoutGhosts.IsOwned [i] := by
    refine fun i hi => ⟨rfl, fun a j hj => ?_⟩
    obtain ⟨hlt, rfl⟩ := List.getElem?_eq_some_iff.mp hj
    obtain rfl := Nat.lt_one_iff.mp hlt
    exact ⟨⟨0, 4⟩, rfl, Nat.zero_le i, hi⟩
  exact ⟨rfl, plan_coloredRings, belongs_regionWithoutGhosts _, fun i hi => ⟨howned i hi, hslots i hi⟩, rfl⟩

end CopyPlan

end HaloMesh
