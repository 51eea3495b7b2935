-- SUMMARY: The errors that a rank reports in a collective, whatever it receives.
import HaloMesh.Collective.AllToAll
import HaloMesh.Proofs.Checked
import HaloMesh.Proofs.Comm.Outcomes

/-!
# Errors of collectives

Whatever the other ranks send, an exchange of values reports that the traffic with one of them failed, that
a value cannot be packed or read, or that it was called with a wrong number of counts. Reading a reply, a
frame or a payload adds no other error.
-/

namespace HaloMesh

/-- The errors of traffic, of packing and of broken invariants. -/
def MeshError.OfTraffic : MeshError → Prop
  | .communication .. | .serialization _ | .invariant _ => True
  | _ => False

variable {α : Type} {error : MeshError → Prop}

/-! ## First errors -/

theorem firstError_of {first : Option MeshError} {e : MeshError} (h : ∀ e, first = some e → error e)
    (he : error e) : ∀ e', firstError first e = some e' → error e' := by
  cases first with
  | none =>
    rintro _ ⟨⟩
    exact he
  | some e' => exact h

theorem reported_of_mapError {ε β : Type} {x : Except ε β} {f : ε → MeshError} (h : ∀ e, error (f e)) :
    ∀ e, x.mapError f = .error e → error e := by
  cases x with
  | ok b => nofun
  | error cause =>
    rintro _ ⟨⟩
    exact h cause

/-! ## Counts -/

theorem ofTraffic_of_countsFromReplies (replies : List (Nat × Option Bytes)) :
    ∀ e, (countsFromReplies replies).2 = some e → e.OfTraffic := by
  induction replies with
  | nil => nofun
  | cons entry replies ih =>
    obtain ⟨peer, reply⟩ := entry
    rw [countsFromReplies]
    cases hcount : countFromReply peer reply with
    | ok n => exact ih
    | error cause =>
      rintro e ⟨⟩
      cases reply with
      | none =>
        cases hcount
        exact trivial
      | some message => exact reported_of_mapError (fun _ => trivial) cause hcount

theorem exchangeCounts_ensures (herror : ∀ e : MeshError, e.OfTraffic → error e) (me : Member) (tag : Nat)
    (counts : List Nat) : (exchangeCounts me tag counts).Ensures error fun _ => True := by
  unfold exchangeCounts
  split
  · exact .report (herror _ trivial)
  · refine (Comm.Ensures.of_program _).andThen fun _ => (Comm.Ensures.of_program _).andThen fun _ => ?_
    refine (Comm.Ensures.of_fault fun _ _ => trivial).andThen fun own => ?_
    refine (Comm.Ensures.of_program _).andThen fun replies => (Comm.Ensures.of_program _).andThen fun _ => ?_
    have hreport := Comm.Ensures.reportAny fun e he =>
      herror e (ofTraffic_of_countsFromReplies (me.peers.zip replies) e he)
    exact hreport.andThen fun _ => .pure trivial

namespace AllToAll

/-! ## Frames -/

/-- The first error so far is one that may be reported. -/
def Sent.May (error : MeshError → Prop) (sent : Sent) : Prop := ∀ e, sent.error = some e → error e

theorem deliver_ensures {sent : Sent} (h : sent.May error) (me : Member) (tag dest : Nat) (frame : Bytes) :
    (sent.deliver me tag dest frame).Ensures error (Sent.May error) := by
  unfold Sent.deliver
  split
  · exact .pure h
  · exact (Comm.Ensures.of_program _).andThen fun _ => .pure h

theorem packedFor_reports (out : Outgoing) (dest count : Nat) :
    ∀ e, packedFor out dest count = .error e → e.OfTraffic := by
  unfold packedFor
  cases out.packed dest with
  | error cause =>
    rintro _ ⟨⟩
    exact trivial
  | ok data =>
    intro e he
    simp only [reportCodec, Except.mapError, Checked.ok_bind] at he
    split at he
    · cases he
    · cases he
      exact trivial

theorem sendTo_ensures (herror : ∀ e : MeshError, e.OfTraffic → error e) (me : Member) (tag : Nat)
    (out : Outgoing) {sent : Sent} (h : sent.May error) (dest : Nat × Nat) :
    (sendTo me tag out sent dest).Ensures error (Sent.May error) := by
  obtain ⟨count, dest⟩ := dest
  simp only [sendTo]
  split
  · exact .pure h
  · cases hpacked : packedFor out dest count with
    | ok data => exact deliver_ensures h ..
    | error e =>
      refine (Comm.Ensures.of_program _).andThen fun _ => ?_
      refine (Comm.Ensures.of_fault fun _ _ => trivial).andThen fun frame => deliver_ensures ?_ ..
      exact firstError_of h (herror e (packedFor_reports out dest count e hpacked))

theorem postReceive_ensures (tag : Nat) (source : Nat × Nat) :
    (postReceive tag source).Ensures error fun _ => True := by
  refine (Comm.Ensures.of_fault fun _ _ => trivial).andThen fun _ => ?_
  exact (Comm.Ensures.of_program _).andThen fun _ => .pure trivial

theorem payloadFromReply_outcome (source count : Nat) (reply : Option Bytes) :
    Outcome MeshError.OfTraffic (fun _ => True) (payloadFromReply source count reply) := by
  cases reply with
  | none => exact trivial
  | some frame =>
    rw [payloadFromReply]
    cases Frame.unwrap frame count with
    | error cause => exact trivial
    | ok opened => cases opened <;> exact trivial

theorem awaitFrame_ensures (herror : ∀ e : MeshError, e.OfTraffic → error e)
    {state : List (Nat × Bytes) × Option MeshError} (h : ∀ e, state.2 = some e → error e)
    (source : (Nat × Nat) × Request) :
    (awaitFrame state source).Ensures error fun state => ∀ e, state.2 = some e → error e := by
  obtain ⟨⟨count, source⟩, request⟩ := source
  refine (Comm.Ensures.of_program _).andThen fun reply => ?_
  have houtcome := payloadFromReply_outcome source count reply
  generalize payloadFromReply source count reply = answer at houtcome ⊢
  match answer with
  | .ok payload => exact .pure h
  | .error (.reported e) => exact .pure (firstError_of h (herror e houtcome))
  | .error (.fault cause) => exact trivial

theorem unpackAll_reports (unpack : Bytes → Except CodecError α) (payloads : List (Nat × Bytes)) :
    ∀ e, unpackAll unpack payloads = .error e → e.OfTraffic := by
  refine Checked.FailsWith.mapM fun entry _ => .bind ?_ fun _ => .ok _ _
  exact reported_of_mapError fun _ => trivial

end AllToAll

open AllToAll in
/-- An exchange of values reports nothing but errors of traffic. -/
theorem allToAll_ensures (herror : ∀ e : MeshError, e.OfTraffic → error e)
    (unpack : Bytes → Except CodecError α) (me : Member) (tag : Nat) (out : Outgoing) :
    (allToAll unpack me tag out).Ensures error fun _ => True := by
  refine (Comm.Ensures.of_fault fun _ _ => trivial).andThen fun counts => ?_
  refine (exchangeCounts_ensures herror me tag counts).andThen fun incoming => ?_
  refine (Comm.Ensures.mapM fun source _ => postReceive_ensures _ source).andThen fun receives => ?_
  have hstart : Sent.May error ⟨[], none, none⟩ := nofun
  refine (Comm.Ensures.foldlM hstart fun dest _ sent h =>
    sendTo_ensures herror me _ out h dest).bind fun sent hsent => ?_
  have hreceived : ∀ e, (([], sent.error) : List (Nat × Bytes) × Option MeshError).2 = some e → error e :=
    hsent
  refine (Comm.Ensures.foldlM hreceived fun source _ state h =>
    awaitFrame_ensures herror h source).bind fun state hstate => ?_
  refine (Comm.Ensures.of_program _).andThen fun _ => (Comm.Ensures.reportAny hstate).andThen fun _ => ?_
  exact .of_check (fun _ _ => trivial) fun e he => herror e (unpackAll_reports unpack _ e he)

end HaloMesh
