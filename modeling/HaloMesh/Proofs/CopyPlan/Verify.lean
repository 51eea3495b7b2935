-- SUMMARY: The plans of a coloring mirror each other, so every rank of a group establishes its plan.
import HaloMesh.Proofs.CopyPlan.Derive
import HaloMesh.Proofs.CopyPlan.Verdict

/-!
# Plans that agree

When all plans come from one coloring, a color expects from its sources what it gets, since both ends
of an exchange list the same runs. So no rank finds a mismatch, and a group that establishes its plans
ends with all of them.
-/

namespace HaloMesh

namespace CopyPlan

section
variable {coloring : Coloring} {space : Nat} {d : ColoringDefinition} {parts : List IndexColoring}
  {color : Nat}

/-! ## Groups -/

/-- The plan of every color of an index space. -/
def plansOf (space : Nat) (d : ColoringDefinition) (parts : List IndexColoring) (color : Nat) :
    CopyPlan :=
  planOf space d (parts.getD color default) color

theorem plansOf_eq (hcolor : color < parts.length) :
    plansOf space d parts color = planOf space d parts[color] color := by
  rw [plansOf, List.getD_eq_getElem?_getD, List.getElem?_eq_getElem hcolor]
  rfl

theorem slots_plansOf {r : Nat} (hr : r < parts.length) :
    (plansOf space d parts r).slots = parts[r].extents.prod := by
  rw [plansOf_eq hr]
  rfl

theorem ofColoring_eq_plansOf (h : coloring.HasSpace space d parts) (hcolor : color < parts.length) :
    ofColoring coloring space color = .ok (plansOf space d parts color) := by
  rw [ofColoring_eq_ok h hcolor, plansOf_eq hcolor]

/-- The plan of a color in terms of the definition alone. -/
theorem ofColoring_eq_planOf {spec : ColoringSpec} (hrep : spec.Representable)
    (hof : Coloring.ofSpec spec = .ok coloring) (hspace : space < coloring.indexSpaces)
    (hd : coloring.spec.indexSpaces[space]? = some d) (hcolor : color < coloring.colors) :
    ofColoring coloring space color = .ok (planOf space d
      (IndexColoring.recordAt d.axes (Grid.position d.axisColors color)) color) := by
  obtain ⟨_, parts, h⟩ := Coloring.exists_hasSpace hrep hof hspace
  obtain ⟨_, hstores⟩ := Coloring.exists_stores hof hspace
  cases hd.symm.trans hstores.definition
  have hplan := ofColoring_eq_plansOf h (h.colors_eq.symm ▸ hcolor)
  rw [hplan, (eq_planOf_of_ofColoring hstores hplan).2.1]

theorem family_plansOf (h : coloring.HasSpace space d parts) :
    Family parts.length (tagOf space) (plansOf space d parts) where
  color_eq _ _ := rfl
  tag_eq _ _ := rfl
  sound r hr := by
    have hcolor : r < d.axisColors.prod := h.partsOf.length_eq ▸ hr
    rw [plansOf_eq hr, h.partsOf.length_eq]
    exact sound_planOf h.valid hcolor (h.extents_prod_eq hr) (Word.lt_limit (h.slots_lt r hr))

/-- Every rank of a group establishes its plan if all plans can be derived and verified. -/
theorem establish_completes {n : Nat} {plan : Nat → CopyPlan}
    (hplan : ∀ r < n, ofColoring coloring space r = .ok (plan r))
    (hverify : Comm.Completes n (fun r => (plan r).verify ⟨r, n⟩) fun _ => ()) :
    Comm.Completes n (fun r => establish ⟨r, n⟩ coloring space) plan := by
  have hderived : Comm.Completes n (fun r => liftM (ofColoring coloring space r)) plan :=
    .of_silent fun r hr => .of_failure (hplan r hr)
  refine hderived.bind (hverify.bind (.of_silent fun r _ => ?_))
  exact (Comm.Yields.lift (Program.performs_record ..)).bind_silent (.pure r _)

end

/-- The plans of all colors exist and mirror each other, and a group whose ranks establish them ends
with these plans under every interleaving. -/
theorem plans_mirror {spec : ColoringSpec} (hrep : spec.Representable) {coloring : Coloring}
    (hof : Coloring.ofSpec spec = .ok coloring) {space : Nat} (hspace : space < coloring.indexSpaces) :
    ∃ plan : Nat → CopyPlan,
      (∀ c < coloring.colors, ofColoring coloring space c = .ok (plan c)) ∧
      (∀ c < coloring.colors, ∀ d < coloring.colors,
        (plan c).sendsTo d = (plan d).runs.filter (·.source == c) ∧
          (d ∈ (plan c).destinations ↔ c ∈ (plan d).sources)) ∧
      (Group.start ((Member.all coloring.colors).map fun me =>
        (establish me coloring space).run)).Settles
          ((List.range coloring.colors).map fun c => .ok (plan c)) := by
  obtain ⟨d, parts, h⟩ := Coloring.exists_hasSpace hrep hof hspace
  have hlist : 24 * parts.length ≤ Word.bufferLimit :=
    Nat.le_trans (Nat.mul_le_mul_right _ (by decide))
      (h.colors_eq ▸ Coloring.footprint_mul_colors_le hof)
  rw [← h.colors_eq]
  refine ⟨plansOf space d parts, fun c hc => ofColoring_eq_plansOf h hc, fun c hc e he => ⟨?_, ?_⟩, ?_⟩
  · exact sendsTo_planOf h he _ _ c
  · exact (mem_destinations_planOf h).trans ((and_iff_right he).trans mem_sources_planOf.symm)
  · have hverify := (family_plansOf h).verify_completes hlist fun r _ dest hdest =>
      congrArg Summary.total (sendsTo_planOf h hdest _ _ r)
    rw [Member.all, List.map_map]
    exact (establish_completes (fun r hr => ofColoring_eq_plansOf h hr) hverify).settles

/-- A periodic axis with one color and one with two. -/
theorem plans_mirror_one_by_two :
    let spec : ColoringSpec := ⟨[⟨[1, 2], [2, 5], [1, 2], [0, 1], [true, true]⟩]⟩
    spec.Representable ∧ ∃ coloring, Coloring.ofSpec spec = .ok coloring ∧
      0 < coloring.indexSpaces ∧ ∃ plan : Nat → CopyPlan,
        (∀ c < coloring.colors, ofColoring coloring 0 c = .ok (plan c)) ∧
        (∀ c < coloring.colors, ∀ d < coloring.colors,
          (plan c).sendsTo d = (plan d).runs.filter (·.source == c) ∧
            (d ∈ (plan c).destinations ↔ c ∈ (plan d).sources)) ∧
        (Group.start ((Member.all coloring.colors).map fun me =>
          (establish me coloring 0).run)).Settles
            ((List.range coloring.colors).map fun c => .ok (plan c)) := by
  intro spec
  have hrep : spec.Representable := by decide
  exact ⟨hrep, _, rfl, by decide, plans_mirror hrep rfl (by decide)⟩

end CopyPlan

end HaloMesh
