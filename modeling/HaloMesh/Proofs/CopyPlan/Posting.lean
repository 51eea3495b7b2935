-- SUMMARY: What the exchange of any sound plan posts, and what it takes for a message.
import HaloMesh.Proofs.Comm.Stateful
import HaloMesh.Proofs.CopyPlan.Transfer

/-!
# The exchange of a sound plan

A color with a sound plan posts a receive for each of its sources and sends one message to each of its
destinations, and then copies the runs that wrap onto the color itself. None of these steps faults. From
a source it takes a message of the length that the plan asks for and nothing else.
-/

namespace HaloMesh

/-! ## Lengths -/

namespace Run

variable {size slots : Nat} {data : Bytes}

/-- A run can be copied within any storage that it lies in. -/
theorem exists_copyWithin {r : Run} (hdata : data.length = slots * size)
    (hsrc : r.src + r.length ≤ slots) (hdest : r.dest + r.length ≤ slots) (hslots : slots < Word.limit)
    (hbytes : slots * size ≤ Word.bufferLimit) :
    ∃ data', copyWithin size data r = .ok data' ∧ data'.length = slots * size := by
  have hstart : r.dest * size ≤ slots * size :=
    Nat.mul_le_mul_right _ (Nat.le_trans (Nat.le_add_right _ _) hdest)
  have hstop : (r.src + r.length) * size ≤ data.length := hdata ▸ Nat.mul_le_mul_right _ hsrc
  obtain ⟨values, hvalues⟩ : ∃ values,
      data.slice? (r.src * size) ((r.src + r.length) * size) = some values := ⟨_, if_pos hstop⟩
  refine ⟨data.overwrite (r.dest * size) values, ?_, ?_⟩
  · rw [copyWithin, sourceBounds_eq_ok hsrc hslots hbytes, Checked.ok_bind]
    simp only [Word.mul_of_le (Nat.le_trans hstart hbytes), Checked.ok_bind, hvalues]
    rfl
  · rw [← hdata]
    apply Bytes.length_overwrite
    rw [Bytes.length_of_slice? hvalues, hdata, ← Nat.sub_mul, Nat.add_sub_cancel_left, ← Nat.add_mul]
    exact Nat.mul_le_mul_right _ hdest

/-- Values that are as long as their runs can be written to any storage that the runs lie in. -/
theorem length_scatter {runs : List Run} {values : Bytes} (hdata : data.length = slots * size)
    (hstop : ∀ r ∈ runs, r.dest + r.length ≤ slots)
    (hvalues : values.length = totalLength runs * size) :
    (scatter size runs values data).length = slots * size := by
  induction runs generalizing values data with
  | nil => exact hdata
  | cons r runs ih =>
    have htotal : totalLength (r :: runs) = r.length + totalLength runs := rfl
    rw [htotal, Nat.add_mul] at hvalues
    have htake : (values.take (r.length * size)).length = r.length * size :=
      List.length_take_of_le (hvalues ▸ Nat.le_add_right _ _)
    rw [scatter]
    apply ih
    · rw [← hdata]
      apply Bytes.length_overwrite
      rw [htake, hdata, ← Nat.add_mul]
      exact Nat.mul_le_mul_right _ (hstop r (by simp))
    · exact fun s hs => hstop s (by simp [hs])
    · rw [List.length_drop, hvalues, Nat.add_sub_cancel_left]

end Run

namespace CopyPlan

/-! ## Parcels -/

/-- The messages that a color sends in an exchange, by their destinations. -/
def outgoing (p : CopyPlan) (message : Nat → Bytes) : List Parcel :=
  Parcel.toPeers (p.remoteDestinations.map (·.1)) p.tag fun dest => some (message dest)

/-- The messages that a color receives in an exchange, by their sources. -/
def incoming (p : CopyPlan) (message : Nat → Bytes) : List Parcel :=
  Parcel.toPeers (p.remoteSources.map (·.1)) p.tag fun source => some (message source)

/-- The message for a destination, from a color that holds `data`. -/
def carried (p : CopyPlan) (size : Nat) (data : Bytes) (dest : Nat) : Bytes :=
  (p.sendsTo dest).flatMap (Run.taken (data.element size))

section
variable {p : CopyPlan} {n rank size : Nat} {data : Bytes} {f : Nat → Bytes}

/-! ## Posting -/

theorem Sound.postReceive_yields (h : p.Sound n) (hbytes : p.slots * size ≤ Word.bufferLimit)
    {entry : Nat × List Run} (hentry : entry ∈ p.recv) :
    CommState.Yields rank (p.postReceive size entry) data []
      (.receive entry.1 p.tag (Run.totalLength entry.2 * size)) data := by
  obtain ⟨source, runs⟩ := entry
  have hruns := h.received _ hentry
  have htotal : Summary.ofRuns runs = .ok (Summary.total runs) := hruns.ofRuns_eq_ok h.slots_lt
  have hle : Run.totalLength runs * size ≤ Word.bufferLimit :=
    Nat.le_trans (Nat.mul_le_mul_right _ hruns.total_le) hbytes
  have hlength : Word.mul (Run.totalLength runs) size = .ok (Run.totalLength runs * size) :=
    Word.mul_of_le hle
  refine (CommState.Yields.of_fault htotal rank data).bind_silent ?_
  refine (CommState.Yields.of_fault hlength rank data).bind_silent ?_
  refine (CommState.Yields.of_fault (Word.reserve_eq_ok_iff.mpr hle) rank data).bind_silent ?_
  exact (CommState.Yields.lift (Program.performs_expect ..) data).bind_silent (.pure ..)

theorem Sound.postReceives_yields (h : p.Sound n) (hbytes : p.slots * size ≤ Word.bufferLimit) :
    CommState.Yields rank (p.remoteSources.mapM (p.postReceive size)) data []
      (p.remoteSources.map fun entry =>
        .receive entry.1 p.tag (Run.totalLength entry.2 * size)) data := by
  have hreceives := @CommState.Yields.mapM _ _ _ rank data (p.postReceive size) (fun _ => [])
    (fun entry => .receive entry.1 p.tag (Run.totalLength entry.2 * size)) p.remoteSources
    fun entry hentry => h.postReceive_yields hbytes (List.mem_of_mem_filter hentry)
  rwa [List.flatMap_eq_nil_iff.mpr fun _ _ => rfl] at hreceives

theorem Sound.postSend_yields (h : p.Sound n) (hbytes : p.slots * size ≤ Word.bufferLimit)
    (hdata : Bytes.Shows size p.slots data f) {entry : Nat × List Run} (hentry : entry ∈ p.send) :
    CommState.Yields rank (p.postSend size entry) data
      [Parcel.sent rank ⟨entry.1, p.tag, entry.2.flatMap (Run.taken f)⟩]
      (.send entry.1 p.tag (entry.2.flatMap (Run.taken f))) data := by
  obtain ⟨dest, runs⟩ := entry
  have hruns := h.sent _ hentry
  have hgather : Run.gather size data runs = .ok (runs.flatMap (Run.taken f)) :=
    Run.gather_eq_ok hdata (h.src_stop_le _ hentry) h.slots_lt hbytes
      (Nat.lt_of_le_of_lt hruns.total_le h.slots_lt)
      (Nat.le_trans (Nat.mul_le_mul_right _ hruns.total_le) hbytes)
  refine (CommState.Yields.get rank data).bind_silent ?_
  refine (CommState.Yields.of_fault hgather rank data).bind_silent ?_
  exact (CommState.Yields.lift (Program.performs_send rank ⟨dest, _, _⟩) data).bind (.pure ..)

theorem Sound.postSends_yields (h : p.Sound n) (hbytes : p.slots * size ≤ Word.bufferLimit)
    (hdata : Bytes.Shows size p.slots data f) :
    CommState.Yields rank (p.remoteDestinations.mapM (p.postSend size)) data
      (p.remoteDestinations.map fun entry =>
        Parcel.sent rank ⟨entry.1, p.tag, entry.2.flatMap (Run.taken f)⟩)
      (p.remoteDestinations.map fun entry =>
        .send entry.1 p.tag (entry.2.flatMap (Run.taken f))) data := by
  have hsends := @CommState.Yields.mapM _ _ _ rank data (p.postSend size)
    (fun entry => [Parcel.sent rank ⟨entry.1, p.tag, entry.2.flatMap (Run.taken f)⟩])
    (fun entry => .send entry.1 p.tag (entry.2.flatMap (Run.taken f))) p.remoteDestinations
    fun entry hentry => h.postSend_yields hbytes hdata (List.mem_of_mem_filter hentry)
  rwa [← List.map_eq_flatMap] at hsends

/-! ## Copies within the color -/

theorem Sound.bounds_of_own (h : p.Sound n) {r : Run} (hr : r ∈ p.recv.runsOf p.color) :
    r.src + r.length ≤ p.slots ∧ r.dest + r.length ≤ p.slots := by
  obtain ⟨runs, hruns, hmem⟩ := RunTable.mem_of_mem_runsOf hr
  exact ⟨h.own_stop_le r hr, h.dest_stop_le _ hruns r hmem⟩

theorem Sound.copyOwn_ends (h : p.Sound n) (hbytes : p.slots * size ≤ Word.bufferLimit)
    (hdata : data.length = p.slots * size) {runs : List Run}
    (hruns : ∀ r ∈ runs, r ∈ p.recv.runsOf p.color) :
    ∃ data', CommState.Yields rank (runs.forM (copyOwn size)) data [] () data' ∧
      data'.length = p.slots * size := by
  induction runs generalizing data with
  | nil => exact ⟨data, .pure rank () data, hdata⟩
  | cons r runs ih =>
    obtain ⟨hsrc, hdest⟩ := h.bounds_of_own (hruns r (by simp))
    obtain ⟨mid, hcopy, hmid⟩ := Run.exists_copyWithin hdata hsrc hdest h.slots_lt hbytes
    have hstep : CommState.Yields rank (copyOwn size r) data [] () mid := by
      refine (CommState.Yields.get rank data).bind_silent ?_
      exact (CommState.Yields.of_fault hcopy rank data).bind_silent (.set rank data mid)
    obtain ⟨data', hyields, hlength⟩ := ih hmid fun s hs => hruns s (by simp [hs])
    refine ⟨data', ?_, hlength⟩
    rw [List.forM_eq_forM, List.forM_cons]
    exact hstep.bind_silent hyields

/-! ## Arrivals -/

theorem messageFrom_eq_ok_iff {source length : Nat} {message values : Bytes} :
    messageFrom source length (some message) = .ok values ↔ message.length = length ∧ values = message := by
  rw [messageFrom, expectLength]
  by_cases hlength : message.length = length
  · rw [if_pos hlength, and_iff_right hlength]
    exact ⟨fun h => (Except.ok.inj h).symm, fun h => h ▸ rfl⟩
  · rw [if_neg hlength]
    refine iff_of_false (fun h => ?_) fun h => hlength h.1
    cases h

end

end CopyPlan

end HaloMesh
