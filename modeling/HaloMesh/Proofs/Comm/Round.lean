-- SUMMARY: Rounds of communication, in which every rank sends and then receives what the others sent.
import HaloMesh.Proofs.Comm.Network
import Mathlib.Tactic.Choose

/-!
# Rounds

In a round every rank first sends and then receives, and on every channel the messages received are
those sent, in order. From a mailbox without messages a round leads back to one, so rounds can be put
one after the other. `Completes` says that all ranks of a group can come to their results in this way,
whatever they go on to do.
-/

namespace HaloMesh

/-! ## Actions in sequence -/

namespace Effect

/-- The effects happen one after the other. -/
def AllApply : List Effect → Queues → Queues → Prop
  | [], q, q' => q' = q
  | e :: es, q, q' => ∃ mid, e.Applies q mid ∧ AllApply es mid q'

end Effect

namespace Program

variable {α β : Type} {rank : Nat} {p q s : Program α} {es es' : List Effect}

/-- The program of `rank` performs actions, of which those with an effect are listed. -/
inductive Performs (rank : Nat) : Program α → List Effect → Program α → Prop
  | refl (p : Program α) : Performs rank p [] p
  | silent {p p' q : Program α} {es : List Effect} :
      Does rank p .silent p' → Performs rank p' es q → Performs rank p es q
  | effect {p p' q : Program α} {e : Effect} {es : List Effect} :
      Does rank p e p' → Performs rank p' es q → Performs rank p (e :: es) q

theorem Performs.trans (h : Performs rank p es q) (h' : Performs rank q es' s) :
    Performs rank p (es ++ es') s := by
  induction h with
  | refl => exact h'
  | silent hdoes _ ih => exact .silent hdoes (ih h')
  | effect hdoes _ ih => exact .effect hdoes (ih h')

theorem Performs.bind (h : Performs rank p es q) (k : α → Program β) :
    Performs rank (p.bind k) es (q.bind k) := by
  induction h with
  | refl p => exact .refl _
  | silent hdoes _ ih => exact .silent (hdoes.bind k) ih
  | effect hdoes _ ih => exact .effect (hdoes.bind k) ih

theorem Performs.split (h : Performs rank p (es ++ es') q) :
    ∃ mid, Performs rank p es mid ∧ Performs rank mid es' q := by
  generalize hall : es ++ es' = all at h
  induction h generalizing es with
  | refl p =>
    obtain ⟨rfl, rfl⟩ := List.append_eq_nil_iff.mp hall
    exact ⟨p, .refl p, .refl p⟩
  | silent hdoes _ ih =>
    obtain ⟨mid, hfirst, hrest⟩ := ih hall
    exact ⟨mid, .silent hdoes hfirst, hrest⟩
  | @effect p _ _ _ _ hdoes hperforms ih =>
    cases es with
    | nil =>
      cases hall
      exact ⟨p, .refl p, .effect hdoes hperforms⟩
    | cons first es =>
      obtain ⟨rfl, htail⟩ := List.cons_eq_cons.mp hall
      obtain ⟨mid, hfirst, hrest⟩ := ih htail
      exact ⟨mid, .effect hdoes hfirst, hrest⟩

theorem Performs.eq_of_done {a : α} (h : Performs rank (.done a) es q) : es = [] ∧ q = .done a := by
  cases h with
  | refl => exact ⟨rfl, rfl⟩
  | silent hdoes _ => cases hdoes
  | effect hdoes _ => cases hdoes

/-- A sequence that has ended consists of its first part and what the rest made of its result. -/
theorem Performs.of_bind {k : α → Program β} {b : β} (h : Performs rank (p.bind k) es (.done b)) :
    ∃ a es₁ es₂, es = es₁ ++ es₂ ∧ Performs rank p es₁ (.done a) ∧
      Performs rank (k a) es₂ (.done b) := by
  generalize hseq : p.bind k = seq at h
  generalize hend : Program.done b = last at h
  induction h generalizing p with
  | refl seq =>
    subst hend
    cases p with
    | done a => exact ⟨a, [], [], rfl, .refl _, hseq ▸ .refl _⟩
    | post => cases hseq
    | await => cases hseq
    | log => cases hseq
  | @silent seq _ _ es hdoes hrest ih =>
    subst hend hseq
    by_cases hp : ∃ a, p = .done a
    · obtain ⟨a, rfl⟩ := hp
      exact ⟨a, [], es, rfl, .refl _, .silent hdoes hrest⟩
    · obtain ⟨p', hfirst, rfl⟩ := hdoes.of_bind (not_exists.mp hp)
      obtain ⟨a, es₁, es₂, heq, hfirst', hsecond⟩ := ih rfl rfl
      exact ⟨a, es₁, es₂, heq, .silent hfirst hfirst', hsecond⟩
  | @effect seq _ _ e es hdoes hrest ih =>
    subst hend hseq
    by_cases hp : ∃ a, p = .done a
    · obtain ⟨a, rfl⟩ := hp
      exact ⟨a, [], e :: es, rfl, .refl _, .effect hdoes hrest⟩
    · obtain ⟨p', hfirst, rfl⟩ := hdoes.of_bind (not_exists.mp hp)
      obtain ⟨a, es₁, es₂, rfl, hfirst', hsecond⟩ := ih rfl rfl
      exact ⟨a, e :: es₁, es₂, rfl, .effect hfirst hfirst', hsecond⟩

end Program

namespace Network

variable {α : Type} {n : Nat} {P Q : Nat → Program α}

/-- A run of a group is made of what its ranks perform. -/
theorem Steps.performs {k : Nat} {net final : Network α} (h : Steps k net final) {rank : Nat}
    {p : Program α} (hp : net.programs[rank]? = some p) :
    ∃ es q, final.programs[rank]? = some q ∧ p.Performs rank es q := by
  induction h generalizing p with
  | refl => exact ⟨[], p, hp, .refl p⟩
  | step hstep _ ih =>
    obtain ⟨other, q, e, q', hq, hdoes, -, hprograms⟩ := hstep
    by_cases hrank : other = rank
    · subst hrank
      cases hp.symm.trans hq
      have hlt := (List.getElem?_eq_some_iff.mp hp).1
      obtain ⟨es, last, hlast, hperforms⟩ := ih (hprograms ▸ List.getElem?_set_self hlt)
      exact ⟨e :: es, last, hlast, .effect hdoes hperforms⟩
    · exact ih (hprograms ▸ (List.getElem?_set_ne hrank).trans hp)

theorem steps_of_does {rank : Nat} {p p' : Program α} {e : Effect} {q q' : Queues}
    (hdoes : p.Does rank e p') (happlies : e.Applies q q') {programs : List (Program α)}
    (hp : programs[rank]? = some p) {k : Nat} {final : Network α}
    (hrest : Steps k ⟨programs.set rank p', q'⟩ final) : Steps (k + 1) ⟨programs, q⟩ final :=
  .step ⟨rank, p, e, p', hp, hdoes, happlies, rfl⟩ hrest

theorem steps_of_performs {rank : Nat} {p p' : Program α} {es : List Effect} {q q' : Queues}
    (h : p.Performs rank es p') (hq : Effect.AllApply es q q') (programs : List (Program α))
    (hp : programs[rank]? = some p) :
    ∃ k, Steps k ⟨programs, q⟩ ⟨programs.set rank p', q'⟩ := by
  induction h generalizing q programs with
  | refl p =>
    cases hq
    obtain ⟨_, rfl⟩ := List.getElem?_eq_some_iff.mp hp
    rw [List.set_getElem_self]
    exact ⟨0, .refl _⟩
  | @silent p mid p' es hdoes _ ih =>
    have hrank := (List.getElem?_eq_some_iff.mp hp).1
    obtain ⟨k, hk⟩ := ih hq (programs.set rank mid) (List.getElem?_set_self hrank)
    rw [List.set_set] at hk
    exact ⟨k + 1, steps_of_does hdoes rfl hp hk⟩
  | @effect p mid p' e es hdoes _ ih =>
    obtain ⟨between, happlies, hq⟩ := hq
    have hrank := (List.getElem?_eq_some_iff.mp hp).1
    obtain ⟨k, hk⟩ := ih hq (programs.set rank mid) (List.getElem?_set_self hrank)
    rw [List.set_set] at hk
    exact ⟨k + 1, steps_of_does hdoes happlies hp hk⟩

/-- The ranks of a group perform their actions one rank after the other. -/
theorem steps_of_ranks {es : Nat → List Effect} {q : Nat → Queues}
    (h : ∀ r < n, (P r).Performs r (es r) (Q r))
    (hq : ∀ r < n, Effect.AllApply (es r) (q r) (q (r + 1))) :
    ∃ k, Steps k ⟨(List.range n).map P, q 0⟩ ⟨(List.range n).map Q, q n⟩ := by
  have hranks : ∀ i ≤ n, ∃ k, Steps k ⟨(List.range n).map P, q 0⟩
      ⟨(List.range n).map fun r => if r < i then Q r else P r, q i⟩ := by
    intro i
    induction i with
    | zero => exact fun _ => ⟨0, .refl _⟩
    | succ i ih =>
      intro hi
      obtain ⟨j, hj⟩ := ih (Nat.le_of_lt hi)
      have hprogram : ((List.range n).map fun r => if r < i then Q r else P r)[i]? = some (P i) := by
        rw [List.getElem?_map, List.getElem?_range hi]
        simp
      obtain ⟨k, hk⟩ := steps_of_performs (h i hi) (hq i hi) _ hprogram
      have hset : ((List.range n).map fun r => if r < i then Q r else P r).set i (Q i) =
          (List.range n).map fun r => if r < i + 1 then Q r else P r := by
        refine List.ext_getElem (by simp) fun r hr _ => ?_
        simp only [List.getElem_set, List.getElem_map, List.getElem_range]
        rcases Nat.lt_trichotomy r i with hlt | heq | hgt
        · rw [if_neg (Nat.ne_of_gt hlt), if_pos hlt, if_pos (Nat.lt_succ_of_lt hlt)]
        · subst heq
          rw [if_pos rfl, if_pos (Nat.lt_succ_self r)]
        · rw [if_neg (Nat.ne_of_lt hgt), if_neg (Nat.not_lt.mpr (Nat.le_of_lt hgt)),
            if_neg (Nat.not_lt.mpr hgt)]
      rw [hset] at hk
      exact ⟨j + k, hj.trans hk⟩
  obtain ⟨k, hk⟩ := hranks n (Nat.le_refl n)
  have hall : (List.range n).map (fun r => if r < n then Q r else P r) = (List.range n).map Q :=
    List.map_congr_left fun r hr => if_pos (List.mem_range.mp hr)
  rw [hall] at hk
  exact ⟨k, hk⟩

end Network

/-! ## Parcels -/

/-- A message that a rank exchanges with a peer under a tag. -/
structure Parcel where
  peer : Nat
  tag : Nat
  bytes : Bytes
  deriving DecidableEq, Repr, Inhabited

namespace Parcel

def sent (rank : Nat) (p : Parcel) : Effect := .push ⟨rank, p.peer, p.tag⟩ p.bytes

def received (rank : Nat) (p : Parcel) : Effect := .pop ⟨p.peer, rank, p.tag⟩ p.bytes

/-- The messages exchanged with a peer under a tag. -/
def between (parcels : List Parcel) (peer tag : Nat) : List Bytes :=
  (parcels.filter fun p => p.peer == peer && p.tag == tag).map (·.bytes)

/-- What a rank sends, channel by channel. -/
def sentOn (rank : Nat) (parcels : List Parcel) (channel : Channel) : List Bytes :=
  if channel.source = rank then between parcels channel.dest channel.tag else []

/-- What a rank receives, channel by channel. -/
def receivedOn (rank : Nat) (parcels : List Parcel) (channel : Channel) : List Bytes :=
  if channel.dest = rank then between parcels channel.source channel.tag else []

theorem sentOn_cons (rank : Nat) (p : Parcel) (parcels : List Parcel) (channel : Channel) :
    sentOn rank (p :: parcels) channel = if channel = ⟨rank, p.peer, p.tag⟩ then
      p.bytes :: sentOn rank parcels channel else sentOn rank parcels channel := by
  obtain ⟨source, dest, tag⟩ := channel
  unfold sentOn between
  by_cases hsource : source = rank
  · by_cases hdest : p.peer = dest
    · by_cases htag : p.tag = tag
      · simp [hsource, hdest, htag]
      · simp [hsource, hdest, htag, Ne.symm htag]
    · simp [hsource, hdest, Ne.symm hdest]
  · simp [hsource]

theorem receivedOn_cons (rank : Nat) (p : Parcel) (parcels : List Parcel) (channel : Channel) :
    receivedOn rank (p :: parcels) channel = if channel = ⟨p.peer, rank, p.tag⟩ then
      p.bytes :: receivedOn rank parcels channel else receivedOn rank parcels channel := by
  obtain ⟨source, dest, tag⟩ := channel
  unfold receivedOn between
  by_cases hdest : dest = rank
  · by_cases hsource : p.peer = source
    · by_cases htag : p.tag = tag
      · simp [hsource, hdest, htag]
      · simp [hsource, hdest, htag, Ne.symm htag]
    · simp [hsource, hdest, Ne.symm hsource]
  · simp [hdest]

theorem allApply_sent (rank : Nat) (parcels : List Parcel) (q : Queues) :
    Effect.AllApply (parcels.map (sent rank)) q fun channel =>
      q channel ++ sentOn rank parcels channel := by
  induction parcels generalizing q with
  | nil =>
    funext channel
    simp [sentOn, between]
  | cons p parcels ih =>
    refine ⟨_, rfl, ?_⟩
    have hqueues : (fun channel => q channel ++ sentOn rank (p :: parcels) channel) =
        fun channel => (q.set ⟨rank, p.peer, p.tag⟩ (q ⟨rank, p.peer, p.tag⟩ ++ [p.bytes])) channel ++
          sentOn rank parcels channel := by
      funext channel
      rw [sentOn_cons, Queues.set]
      split
      · rename_i heq
        rw [heq, List.append_assoc]
        rfl
      · rfl
    rw [hqueues]
    exact ih _

theorem allApply_received (rank : Nat) (parcels : List Parcel) (rest : Queues) :
    Effect.AllApply (parcels.map (received rank))
      (fun channel => receivedOn rank parcels channel ++ rest channel) rest := by
  induction parcels with
  | nil =>
    funext channel
    simp [receivedOn, between]
  | cons p parcels ih =>
    refine ⟨_, ⟨receivedOn rank parcels ⟨p.peer, rank, p.tag⟩ ++ rest ⟨p.peer, rank, p.tag⟩, ?_,
      rfl⟩, ?_⟩
    · change receivedOn rank (p :: parcels) _ ++ rest _ = _
      rw [receivedOn_cons, if_pos rfl]
      rfl
    · have hqueues : Queues.set (fun channel => receivedOn rank (p :: parcels) channel ++ rest channel)
          ⟨p.peer, rank, p.tag⟩
            (receivedOn rank parcels ⟨p.peer, rank, p.tag⟩ ++ rest ⟨p.peer, rank, p.tag⟩) =
          fun channel => receivedOn rank parcels channel ++ rest channel := by
        funext channel
        rw [Queues.set]
        split
        · rename_i heq
          rw [heq]
        · rename_i hne
          rw [receivedOn_cons, if_neg hne]
      rw [hqueues]
      exact ih

end Parcel

/-! ## Rounds -/

/-- On every channel of a group of `n` ranks, the messages received are those sent, in order. -/
structure Matches (n : Nat) (out inc : Nat → List Parcel) : Prop where
  out_lt : ∀ r < n, ∀ p ∈ out r, p.peer < n
  inc_lt : ∀ r < n, ∀ p ∈ inc r, p.peer < n
  between_eq : ∀ r < n, ∀ s < n, ∀ tag,
    Parcel.between (out r) s tag = Parcel.between (inc s) r tag

namespace Parcel

/-- At most one message for each of some peers. -/
def toPeers (peers : List Nat) (tag : Nat) (message : Nat → Option Bytes) : List Parcel :=
  peers.filterMap fun peer => (message peer).map fun bytes => ⟨peer, tag, bytes⟩

theorem toPeers_some (peers : List Nat) (tag : Nat) (message : Nat → Bytes) :
    toPeers peers tag (fun peer => some (message peer)) =
      peers.map fun peer => ⟨peer, tag, message peer⟩ :=
  congrFun List.filterMap_eq_map' peers

theorem mem_peers_of_mem_toPeers {peers : List Nat} {tag : Nat} {message : Nat → Option Bytes}
    {p : Parcel} (h : p ∈ toPeers peers tag message) : p.peer ∈ peers := by
  obtain ⟨peer, hpeer, hp⟩ := List.mem_filterMap.mp h
  obtain ⟨bytes, -, rfl⟩ := Option.map_eq_some_iff.mp hp
  exact hpeer

theorem between_toPeers {peers : List Nat} (hnodup : peers.Nodup) (tag : Nat)
    (message : Nat → Option Bytes) (peer t : Nat) : between (toPeers peers tag message) peer t =
      if tag = t ∧ peer ∈ peers then (message peer).toList else [] := by
  induction peers with
  | nil => simp [toPeers, between]
  | cons first peers ih =>
    obtain ⟨hfirst, hnodup⟩ := List.nodup_cons.mp hnodup
    have htail : between (toPeers (first :: peers) tag message) peer t =
        (if tag = t ∧ peer = first then (message first).toList else []) ++
          between (toPeers peers tag message) peer t := by
      unfold between toPeers
      cases hmessage : message first with
      | none => simp [hmessage]
      | some bytes =>
        rw [List.filterMap_cons, hmessage, Option.map_some]
        by_cases hpeer : first = peer
        · by_cases htag : tag = t
          · simp [hpeer, htag]
          · simp [hpeer, htag]
        · simp [hpeer, Ne.symm hpeer]
    rw [htail, ih hnodup]
    by_cases htag : tag = t
    · by_cases hpeer : peer = first
      · subst hpeer
        simp [htag, hfirst]
      · simp [htag, hpeer]
    · simp [htag]

end Parcel

/-- Ranks that list each other as peers wherever there is a message. -/
theorem matches_toPeers {n : Nat} (tag : Nat) {dests sources : Nat → List Nat}
    {message : Nat → Nat → Option Bytes}
    (hdests : ∀ r < n, (dests r).Nodup ∧ ∀ s ∈ dests r, s < n)
    (hsources : ∀ s < n, (sources s).Nodup ∧ ∀ r ∈ sources s, r < n)
    (hiff : ∀ r < n, ∀ s < n, s ∈ dests r ↔ r ∈ sources s) :
    Matches n (fun r => Parcel.toPeers (dests r) tag (message r))
      fun s => Parcel.toPeers (sources s) tag fun r => message r s where
  out_lt r hr p hp := (hdests r hr).2 _ (Parcel.mem_peers_of_mem_toPeers hp)
  inc_lt s hs p hp := (hsources s hs).2 _ (Parcel.mem_peers_of_mem_toPeers hp)
  between_eq r hr s hs t := by
    rw [Parcel.between_toPeers (hdests r hr).1, Parcel.between_toPeers (hsources s hs).1]
    simp only [hiff r hr s hs]

/-- Only one of the ranks has something to add. -/
theorem flatMap_range_eq {β : Type} {n s : Nat} {f : Nat → List β} (h : ∀ r < n, r ≠ s → f r = []) :
    (List.range n).flatMap f = if s < n then f s else [] := by
  induction n with
  | zero => rfl
  | succ n ih =>
    rw [List.range_succ, List.flatMap_append, List.flatMap_singleton,
      ih fun r hr hne => h r (Nat.lt_succ_of_lt hr) hne]
    rcases Nat.lt_trichotomy s n with hlt | heq | hgt
    · rw [if_pos hlt, if_pos (Nat.lt_succ_of_lt hlt), h n (Nat.lt_succ_self n) (Nat.ne_of_gt hlt),
        List.append_nil]
    · subst heq
      rw [if_neg (Nat.lt_irrefl s), if_pos (Nat.lt_succ_self s), List.nil_append]
    · rw [if_neg (Nat.not_lt.mpr (Nat.le_of_lt hgt)), if_neg (Nat.not_lt.mpr hgt),
        h n (Nat.lt_succ_self n) (Nat.ne_of_lt hgt), List.append_nil]

/-- Only the rank at which a channel starts sends on it. -/
theorem flatMap_sentOn (n : Nat) (out : Nat → List Parcel) (channel : Channel) :
    ((List.range n).flatMap fun r => Parcel.sentOn r (out r) channel) =
      if channel.source < n then Parcel.sentOn channel.source (out channel.source) channel else [] :=
  flatMap_range_eq fun _ _ hne => if_neg (Ne.symm hne)

/-- Only the rank at which a channel ends receives from it. -/
theorem flatMap_receivedOn (n : Nat) (inc : Nat → List Parcel) (channel : Channel) :
    ((List.range n).flatMap fun r => Parcel.receivedOn r (inc r) channel) =
      if channel.dest < n then Parcel.receivedOn channel.dest (inc channel.dest) channel else [] :=
  flatMap_range_eq fun _ _ hne => if_neg (Ne.symm hne)

theorem Matches.sentOn_eq {n : Nat} {out inc : Nat → List Parcel} (h : Matches n out inc)
    (channel : Channel) :
    ((List.range n).flatMap fun r => Parcel.sentOn r (out r) channel) =
      (List.range n).flatMap fun r => Parcel.receivedOn r (inc r) channel := by
  rw [flatMap_sentOn, flatMap_receivedOn]
  obtain ⟨source, dest, tag⟩ := channel
  simp only [Parcel.sentOn, Parcel.receivedOn, if_true]
  have hnil : ∀ {parcels : List Parcel} {peer : Nat}, (∀ p ∈ parcels, p.peer < n) → ¬ peer < n →
      Parcel.between parcels peer tag = [] := by
    intro parcels peer hparcels hpeer
    rw [Parcel.between, List.map_eq_nil_iff, List.filter_eq_nil_iff]
    intro p hp heq
    rw [Bool.and_eq_true, beq_iff_eq] at heq
    exact hpeer (heq.1 ▸ hparcels p hp)
  by_cases hsource : source < n
  · by_cases hdest : dest < n
    · rw [if_pos hsource, if_pos hdest, h.between_eq source hsource dest hdest]
    · rw [if_pos hsource, if_neg hdest, hnil (h.out_lt source hsource) hdest]
  · by_cases hdest : dest < n
    · rw [if_neg hsource, if_pos hdest, hnil (h.inc_lt dest hdest) hsource]
    · rw [if_neg hsource, if_neg hdest]

/-- A group whose ranks all send and then receive what was sent comes to the end of the round with no
message left. -/
theorem Network.steps_of_round {α : Type} {n : Nat} {P Q : Nat → Program α}
    {out inc : Nat → List Parcel} (hmatches : Matches n out inc)
    (h : ∀ r < n, (P r).Performs r
      ((out r).map (Parcel.sent r) ++ (inc r).map (Parcel.received r)) (Q r)) :
    ∃ k, Steps k ⟨(List.range n).map P, .empty⟩ ⟨(List.range n).map Q, .empty⟩ := by
  have hsplit : ∀ r, ∃ mid, r < n → (P r).Performs r ((out r).map (Parcel.sent r)) mid ∧
      mid.Performs r ((inc r).map (Parcel.received r)) (Q r) := by
    intro r
    by_cases hr : r < n
    · obtain ⟨mid, hmid⟩ := (h r hr).split
      exact ⟨mid, fun _ => hmid⟩
    · exact ⟨P r, fun hlt => absurd hlt hr⟩
  choose mid hmid using hsplit
  -- All sends come first, rank by rank, and leave what all ranks have sent.
  obtain ⟨j, hj⟩ := steps_of_ranks (fun r hr => (hmid r hr).1)
    (q := fun i channel => (List.range i).flatMap fun r => Parcel.sentOn r (out r) channel)
    fun r _ => by
      simp only [List.range_succ, List.flatMap_append, List.flatMap_singleton]
      exact Parcel.allApply_sent r (out r) _
  -- Then every rank takes its messages, and leaves those of the ranks after it.
  obtain ⟨k, hk⟩ := steps_of_ranks (fun r hr => (hmid r hr).2)
    (q := fun i channel =>
      ((List.range n).drop i).flatMap fun r => Parcel.receivedOn r (inc r) channel)
    fun r hr => by
      have hdrop : (List.range n).drop r = r :: (List.range n).drop (r + 1) := by
        rw [List.drop_eq_getElem_cons (by rw [List.length_range]; exact hr), List.getElem_range]
      simp only [hdrop, List.flatMap_cons]
      exact Parcel.allApply_received r (inc r) _
  have hbetween : (fun channel => (List.range n).flatMap fun r => Parcel.sentOn r (out r) channel) =
      fun channel => ((List.range n).drop 0).flatMap fun r =>
        Parcel.receivedOn r (inc r) channel :=
    funext hmatches.sentOn_eq
  have hend : (fun channel => ((List.range n).drop n).flatMap fun r =>
      Parcel.receivedOn r (inc r) channel) = Queues.empty := by
    funext channel
    rw [List.drop_of_length_le (Nat.le_of_eq List.length_range)]
    rfl
  rw [hbetween] at hj
  rw [hend] at hk
  exact ⟨j + k, hj.trans hk⟩

/-! ## Groups that complete -/

/-- All ranks of a group of `n` come to their results, whatever they go on to do, and leave no
message. -/
def Completes {α : Type} (n : Nat) (P : Nat → Program α) (a : Nat → α) : Prop :=
  ∀ (β : Type) (K : Nat → α → Program β), ∃ k,
    Network.Steps k ⟨(List.range n).map fun r => (P r).bind (K r), .empty⟩
      ⟨(List.range n).map fun r => K r (a r), .empty⟩

namespace Completes

variable {α β : Type} {n : Nat} {P : Nat → Program α} {a : Nat → α}

theorem done (n : Nat) (a : Nat → α) : Completes n (fun r => .done (a r)) a :=
  fun _ _ => ⟨0, .refl _⟩

theorem bind (h : Completes n P a) {Q : Nat → α → Program β} {b : Nat → β}
    (h' : Completes n (fun r => Q r (a r)) b) : Completes n (fun r => (P r).bind (Q r)) b := by
  intro γ K
  obtain ⟨j, hj⟩ := h γ fun r x => (Q r x).bind (K r)
  obtain ⟨k, hk⟩ := h' γ K
  simp only [Program.bind_assoc]
  exact ⟨j + k, hj.trans hk⟩

theorem congr (h : Completes n P a) {P' : Nat → Program α} {a' : Nat → α}
    (hP : ∀ r < n, P' r = P r) (ha : ∀ r < n, a' r = a r) : Completes n P' a' := by
  intro β K
  obtain ⟨k, hk⟩ := h β K
  refine ⟨k, ?_⟩
  rw [List.map_congr_left fun r hr => congrArg (Program.bind · (K r)) (hP r (List.mem_range.mp hr)),
    List.map_congr_left fun r hr => congrArg (K r) (ha r (List.mem_range.mp hr))]
  exact hk

/-- A round completes. -/
theorem of_round {out inc : Nat → List Parcel} (hmatches : Matches n out inc)
    (h : ∀ r < n, (P r).Performs r
      ((out r).map (Parcel.sent r) ++ (inc r).map (Parcel.received r)) (.done (a r))) :
    Completes n P a :=
  fun _ K => Network.steps_of_round hmatches fun r hr => (h r hr).bind (K r)

/-- Steps of the ranks without effects. -/
theorem of_silent (h : ∀ r < n, (P r).Performs r [] (.done (a r))) : Completes n P a := by
  have hmatches : Matches n (fun _ => []) fun _ => [] :=
    ⟨fun _ _ _ hp => (nomatch hp), fun _ _ _ hp => (nomatch hp), fun _ _ _ _ _ => rfl⟩
  exact of_round hmatches h

/-- Where a first part completes, a run of the whole group to its end goes on from there. -/
theorem steps_of_bind (h : Completes n P a) {Q : Nat → α → Program β} {results : List β} {q : Queues}
    {k : Nat} (hk : Network.Steps k ⟨(List.range n).map fun r => (P r).bind (Q r), .empty⟩
      ⟨results.map .done, q⟩) :
    ∃ j, Network.Steps j ⟨(List.range n).map fun r => Q r (a r), .empty⟩ ⟨results.map .done, q⟩ := by
  obtain ⟨i, hi⟩ := h β Q
  exact Network.steps_of_steps hk (Network.final_of_done rfl) hi

/-- A group that completes settles. -/
theorem settles (h : Completes n P a) :
    (Group.start ((List.range n).map P)).Settles ((List.range n).map a) := by
  obtain ⟨k, hk⟩ := h α fun _ x => .done x
  simp only [Program.bind_done] at hk
  refine Group.settles_of_steps (k := k) ?_
  rw [List.map_map]
  exact hk

end Completes

end HaloMesh
