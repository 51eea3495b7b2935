-- SUMMARY: The course of a rank over a transport: its events, the requests that they post and complete, its result.
import HaloMesh.Proofs.Comm.Replies
import Mathlib.Data.List.Basic

/-!
# Courses

The course of a rank over a transport is what happens on the way to its result. `Comes` states both for
a rank that may fail, and its rules are those of a rank with a state. From the events one reads which
requests were posted, which were waited for, and which messages were sent. A handle is left behind if a
request is posted and never waited for.
-/

namespace HaloMesh

/-! ## Requests of a course -/

/-- The request that an event posts. -/
def Event.posted? : Event → Option Request
  | .posted request => some request
  | _ => none

/-- The request that an event completes. -/
def Event.awaited? : Event → Option Request
  | .completed request _ => some request
  | _ => none

/-- The message of a request, with its destination and tag. -/
def Request.message? : Request → Option (Nat × Nat × Bytes)
  | .send peer tag payload => some (peer, tag, payload)
  | .receive .. => none

namespace History

/-- The requests that are posted, in order. -/
def posted (es : List Event) : List Request := es.filterMap Event.posted?

/-- The requests that are waited for, in order. -/
def awaited (es : List Event) : List Request := es.filterMap Event.awaited?

variable (es es' : List Event) (requests : List Request) (replies : List (Request × Option Bytes))

theorem posted_append : posted (es ++ es') = posted es ++ posted es' := List.filterMap_append

theorem awaited_append : awaited (es ++ es') = awaited es ++ awaited es' :=
  List.filterMap_append

theorem posted_posts : posted (posts requests) = requests := by
  rw [posted, posts, List.filterMap_map]
  exact List.filterMap_some

theorem awaited_posts : awaited (posts requests) = [] := by
  rw [awaited, posts, List.filterMap_map]
  exact List.filterMap_eq_nil_iff.mpr fun _ _ => rfl

theorem posted_completions : posted (completions replies) = [] := by
  rw [posted, completions, List.filterMap_map]
  exact List.filterMap_eq_nil_iff.mpr fun _ _ => rfl

theorem awaited_completions : awaited (completions replies) = replies.map (·.1) := by
  rw [awaited, completions, List.filterMap_map]
  exact congrFun List.filterMap_eq_map replies

/-- What is sent are the messages of the requests that are posted. -/
theorem sent_extend_eq (h : History) :
    (h.extend es).sent = h.sent ++ (posted es).filterMap Request.message? := by
  have hevents : sent es.reverse = (posted es).filterMap Request.message? := by
    rw [sent, List.reverse_reverse, posted, List.filterMap_filterMap]
    refine List.filterMap_congr fun e _ => ?_
    cases e with
    | posted request => cases request <;> rfl
    | completed | logged => rfl
  rw [sent_extend, hevents]

end History

/-! ## Replies -/

/-- What a transport yields for requests that are waited for one after the other. -/
def Transport.replies (transport : Transport) (h : History) (requests : List Request) :
    List (Option Bytes) :=
  ((Program.completeAll requests).runOver transport h).1

theorem Program.runOver_completeAll (transport : Transport) (h : History) (requests : List Request) :
    (completeAll requests).runOver transport h = (transport.replies h requests,
      h.extend (History.completions (requests.zip (transport.replies h requests)))) ∧
    (transport.replies h requests).length = requests.length := by
  induction requests generalizing h with
  | nil => exact ⟨rfl, rfl⟩
  | cons request requests ih =>
    obtain ⟨hrest, hlength⟩ := ih (.completed request (outcome transport h request) :: h)
    have hreplies : transport.replies h (request :: requests) = outcome transport h request ::
        transport.replies (.completed request (outcome transport h request) :: h) requests := by
      rw [Transport.replies, completeAll, runOver, runOver_bind]
      rfl
    rw [hreplies, List.length_cons, hlength]
    refine ⟨?_, rfl⟩
    rw [completeAll, runOver, runOver_bind, hrest, List.zip_cons_cons]
    exact congrArg (Prod.mk _) (History.extend_append h [.completed request _] _).symm

/-- Replies to requests that each go to another rank are a function of the rank. -/
theorem exists_reply_of_nodup {ranks : List Nat} (hnodup : ranks.Nodup) {replies : List (Option Bytes)}
    (hlength : replies.length = ranks.length) :
    ∃ reply : Nat → Option Bytes, replies = ranks.map reply := by
  refine ⟨fun rank => replies.getD (ranks.idxOf rank) none, ?_⟩
  refine List.ext_getElem (by simp [hlength]) fun i hi hi' => ?_
  have hlt : i < ranks.length := hlength ▸ hi
  rw [List.getElem_map, hnodup.idxOf_getElem i hlt, List.getD_eq_getElem?_getD,
    List.getElem?_eq_getElem hi, Option.getD_some]

/-! ## Courses of a rank that may fail -/

namespace Comm

variable {α β σ : Type} {transport : Transport} {h : History} {es es' : List Event}

/-- The rank comes to a result, and these events happen on the way. -/
def Comes (x : Comm α) (transport : Transport) (h : History) (es : List Event)
    (result : Except Failure α) : Prop :=
  x.run.runOver transport h = (result, h.extend es)

/-- The rank comes to the same with any state, which it leaves as it is. -/
theorem ends_liftM_iff {x : Comm α} {result : Except Failure α} {s : σ} :
    CommState.Ends (liftM x : CommState σ α) transport h s es result s ↔
      x.Comes transport h es result := by
  have hrun : ((liftM x : CommState σ α).run.run s).runOver transport h =
      (((x.run.runOver transport h).1, s), (x.run.runOver transport h).2) :=
    Program.runOver_bind transport x.run (fun result => .done (result, s)) h
  rw [CommState.Ends, Comes, hrun]
  simp only [Prod.ext_iff, and_true]

theorem Comes.pure (a : α) : (Pure.pure a : Comm α).Comes transport h [] (.ok a) :=
  ends_liftM_iff.mp (CommState.Ends.pure a (s := ()))

section
variable {x : Comm α} {f : α → Comm β} {a : α} {result : Except Failure β}

/-- A first step that returns, and what the rest comes to. -/
theorem Comes.bind (hx : x.Comes transport h es (.ok a))
    (hf : (f a).Comes transport (h.extend es) es' result) :
    (x >>= f).Comes transport h (es ++ es') result := by
  rw [← ends_liftM_iff (s := ())] at hx hf ⊢
  rw [CommState.liftM_bind]
  exact hx.bind hf

/-- A first step without events. -/
theorem Comes.bind_silent (hx : x.Comes transport h [] (.ok a)) (hf : (f a).Comes transport h es result) :
    (x >>= f).Comes transport h es result :=
  hx.bind hf

/-- A last step without events. -/
theorem Comes.then_silent (hx : x.Comes transport h es (.ok a))
    (hf : (f a).Comes transport (h.extend es) [] result) : (x >>= f).Comes transport h es result := by
  rw [← List.append_nil es]
  exact hx.bind hf

/-- A first step that fails. -/
theorem Comes.fail {failure : Failure} (hx : x.Comes transport h es (.error failure)) (f : α → Comm β) :
    (x >>= f).Comes transport h es (.error failure) := by
  rw [← ends_liftM_iff (s := ())] at hx ⊢
  rw [CommState.liftM_bind]
  exact hx.fail _

end

theorem Comes.of_fault {x : Except Fault α} {a : α} (hx : x = .ok a) :
    (liftM x : Comm α).Comes transport h [] (.ok a) :=
  hx ▸ .pure a

theorem Comes.of_check (x : Except MeshError α) :
    (liftM x : Comm α).Comes transport h [] (x.mapError .reported) := by
  cases x with
  | ok a => rfl
  | error error => rfl

theorem Comes.reportAny (error : Option MeshError) : (reportAny error).Comes transport h []
    (match error with
      | some error => .error (.reported error)
      | none => .ok ()) := by
  cases error with
  | none => rfl
  | some error => rfl

theorem Comes.lift {p : Program α} {a : α} (hp : p.runOver transport h = (a, h.extend es)) :
    (liftM p : Comm α).Comes transport h es (.ok a) :=
  ends_liftM_iff.mp (CommState.Ends.lift hp (s := ()))

theorem Comes.issue (request : Request) : (liftM (Program.issue request) : Comm Unit).Comes transport h
    [.posted request] (.ok ()) :=
  .lift rfl

theorem Comes.issueAll (requests : List Request) :
    (liftM (Program.issueAll requests) : Comm Unit).Comes transport h (History.posts requests) (.ok ()) :=
  ends_liftM_iff.mp (CommState.Ends.issueAll requests (s := ()))

theorem Comes.record (level : LogLevel) (text : String) :
    (liftM (Program.record level text) : Comm Unit).Comes transport h [.logged ⟨level, text⟩] (.ok ()) :=
  .lift rfl

theorem Comes.complete (request : Request) :
    (liftM (Program.complete request) : Comm (Option Bytes)).Comes transport h
      [.completed request (Program.outcome transport h request)]
      (.ok (Program.outcome transport h request)) :=
  .lift rfl

/-- A list of steps that all return. -/
theorem Comes.mapM {f : α → Comm β} {e : α → List Event} {g : α → β} {xs : List α}
    (hf : ∀ x ∈ xs, ∀ h, (f x).Comes transport h (e x) (.ok (g x))) :
    (xs.mapM f).Comes transport h (xs.flatMap e) (.ok (xs.map g)) := by
  simp only [← ends_liftM_iff (s := ()), CommState.liftM_mapM] at hf ⊢
  exact .mapM hf

/-- A loop whose body always returns. -/
theorem Comes.foldlM {f : σ → α → Comm σ} {e : α → List Event} {g : σ → α → σ} {xs : List α} {s : σ}
    (hf : ∀ x ∈ xs, ∀ s h, (f s x).Comes transport h (e x) (.ok (g s x))) :
    (xs.foldlM f s).Comes transport h (xs.flatMap e) (.ok (xs.foldl g s)) := by
  simp only [← ends_liftM_iff (s := ()), CommState.liftM_foldlM] at hf ⊢
  exact .foldlM hf

end Comm

end HaloMesh
