-- SUMMARY: What is sent through the collectives says where it ends, so no cut is read as a value.
import HaloMesh.Proofs.Codec.Records
import HaloMesh.Proofs.CopyPlan.Verdict
import HaloMesh.Topology.Construct

/-!
# Messages of the collectives

The root sends every rank a coloring input with the metadata of its color, or a text, and ranks tell each
other summaries of what they expect. The layouts of both delimit all values that can be written. So a
receiver may be handed more bytes than the message has, and never takes fewer for another message.
-/

namespace HaloMesh

namespace Topology

/-! ## What the root sends -/

/-- All numbers, lists and texts of the message fit the widths at which they are written. -/
def Dissemination.Writable : Dissemination → Prop
  | .ok (spec, metadata) => spec.Writable ∧ metadata.Writable
  | .error text => text.utf8ByteSize < Word.limit

theorem delimitsAt_disseminationCodec {sent : Dissemination} (h : sent.Writable) :
    disseminationCodec.DelimitsAt sent := by
  apply Codec.delimitsAt_result
  · rintro text rfl
    exact Codec.delimitsAt_text h
  · rintro ⟨spec, metadata⟩ rfl
    obtain ⟨hspec, hmetadata⟩ := h
    exact (ColoringSpec.delimitsAt_codec hspec).pair (ColorMeta.delimitsAt_codec hmetadata)

/-! ## All messages -/

/-- Everything that is sent through a collective says where it ends. -/
theorem messages_delimit :
    (∀ sent : Dissemination, sent.Writable →
      ∃ data, disseminationCodec.packer.Delimits sent data) ∧
    (∀ summary : Summary, summary.runs < Word.limit → summary.elements < Word.limit →
      ∃ data, Summary.codec.packer.Delimits summary data) := by
  refine ⟨fun sent h => ?_, fun summary hruns helements => ?_⟩
  · exact ⟨_, (delimitsAt_disseminationCodec h).packer⟩
  · exact ⟨_, (Summary.delimitsAt_codec hruns helements).packer⟩

/-- The part of color 1 of a ring of two colors, a text and a summary. -/
theorem messages_delimit_on_ring :
    let spec : ColoringSpec := ⟨[⟨[2], [4], [1], [0], [true]⟩]⟩
    let metadata : ColorMeta := ⟨1, [⟨[4], [2], [4], ⟨[2], [4]⟩, ⟨[2], [4]⟩, 0⟩]⟩
    (∃ data, disseminationCodec.packer.Delimits (.ok (spec, metadata)) data) ∧
      (∃ data, disseminationCodec.packer.Delimits (.error "no coloring") data) ∧
      ∃ data, Summary.codec.packer.Delimits ⟨1, 1⟩ data := by
  intro spec metadata
  have hspec : spec.Writable := by
    refine ⟨by decide, fun d hd => ?_⟩
    cases List.mem_singleton.mp hd
    exact ⟨by decide, by decide, by decide, by decide, by decide⟩
  have hmetadata : metadata.Writable := by
    refine ⟨by decide, by decide, fun ic hic => ?_⟩
    cases List.mem_singleton.mp hic
    have hbox : (⟨[2], [4]⟩ : Hypercube).Writable := ⟨by decide, by decide⟩
    exact ⟨by decide, by decide, by decide, hbox, hbox, by decide⟩
  exact ⟨messages_delimit.1 _ ⟨hspec, hmetadata⟩,
    messages_delimit.1 (.error "no coloring") (by show ("no coloring" : String).utf8ByteSize < _; decide),
    messages_delimit.2 ⟨1, 1⟩ (by decide) (by decide)⟩

end Topology

end HaloMesh
