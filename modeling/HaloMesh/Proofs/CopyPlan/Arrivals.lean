-- SUMMARY: A group whose plans pair up refreshes a field to the end, with the errors that lengths cause at worst.
import HaloMesh.Proofs.CopyPlan.Refresh
import HaloMesh.Proofs.CopyPlan.Storage

/-!
# Arrivals

If a color sends to exactly those that wait for it, then a refresh sends and receives the same messages
whatever they hold. The ranks of a group may refresh fields of different element sizes, or follow plans
from different colorings, and then messages arrive that are longer or shorter than expected. The
refresh ends all the same, with an error at worst, and the storage of the field keeps its length.
-/

namespace HaloMesh

namespace CopyPlan

/-! ## Peers -/

/-- The colors of a group send to those that wait for them. -/
def Paired (n : Nat) (plan : Nat → CopyPlan) : Prop :=
  ∀ r < n, ∀ s < n, s ∈ (plan r).destinations ↔ r ∈ (plan s).sources

section
variable {p : CopyPlan} {n tag : Nat} {plan : Nat → CopyPlan}

theorem mem_keys_filter {table : RunTable} {color key : Nat} :
    key ∈ (table.filter (·.1 != color)).map (·.1) ↔ key ∈ table.map (·.1) ∧ key ≠ color := by
  simp only [List.mem_map, List.mem_filter, bne_iff_ne]
  constructor
  · rintro ⟨entry, ⟨hentry, hne⟩, rfl⟩
    exact ⟨⟨entry, hentry, rfl⟩, hne⟩
  · rintro ⟨⟨entry, hentry, rfl⟩, hne⟩
    exact ⟨entry, ⟨hentry, hne⟩, rfl⟩

theorem nodup_keys_filter {table : RunTable} (h : (table.map (·.1)).Pairwise (· < ·)) (color : Nat) :
    ((table.filter (·.1 != color)).map (·.1)).Nodup :=
  (h.imp Nat.ne_of_lt).sublist (List.filter_sublist.map _)

/-- The ranks of a group send and receive along the same pairs. -/
theorem Family.matches_parcels (h : Family n tag plan) (hpaired : Paired n plan)
    (message : Nat → Nat → Bytes) : Matches n (fun r => (plan r).outgoing (message r))
      fun s => (plan s).incoming fun r => message r s := by
  have hmatches := @matches_toPeers n tag (fun r => (plan r).remoteDestinations.map (·.1))
    (fun s => (plan s).remoteSources.map (·.1)) (fun r s => some (message r s))
    (fun r hr => ⟨nodup_keys_filter (h.sound r hr).destinations_increasing _, fun s hs =>
      (h.sound r hr).destination_lt s (mem_keys_filter.mp hs).1⟩)
    (fun s hs => ⟨nodup_keys_filter (h.sound s hs).sources_increasing _, fun r hr =>
      (h.sound s hs).source_lt r (mem_keys_filter.mp hr).1⟩)
    fun r hr s hs => by
      rw [remoteDestinations, remoteSources, mem_keys_filter, mem_keys_filter, h.color_eq r hr,
        h.color_eq s hs]
      exact and_congr (hpaired r hr s hs) ne_comm
  constructor
  · intro r hr
    rw [outgoing, h.tag_eq r hr]
    exact hmatches.out_lt r hr
  · intro s hs
    rw [incoming, h.tag_eq s hs]
    exact hmatches.inc_lt s hs
  · intro r hr s hs
    rw [outgoing, incoming, h.tag_eq r hr, h.tag_eq s hs]
    exact hmatches.between_eq r hr s hs

/-! ## Refreshing -/

/-- A refresh sends and receives what its exchange does. -/
theorem Sound.refresh_ends (h : p.Sound n) {info : FieldInfo} {region : Region} {rank : Nat}
    (haccepts : p.Accepts info region) (hroom : region.HasRoom info)
    (hlength : (region.stored info).length = region.length * info.typeSize)
    (message : Nat → Bytes) :
    ∃ out : Except Failure Unit × Bytes,
      Program.Performs rank ((p.refresh info).run.run region)
        ((p.outgoing (p.carried info.typeSize (region.stored info))).map (Parcel.sent rank) ++
          (p.incoming message).map (Parcel.received rank))
        (.done (out.1, (region.ensured info).setBytes info.field out.2)) ∧
      out.2.length = region.length * info.typeSize ∧
      ((∀ entry ∈ p.remoteSources,
          (message entry.1).length = Run.totalLength entry.2 * info.typeSize) → out.1 = .ok ()) := by
  have hbytes := hroom.le
  rw [haccepts.length_eq] at hlength hbytes ⊢
  obtain ⟨result, data, hexchange, hdata, hok⟩ := h.exchange_ends hbytes hlength message
  exact ⟨(result, data), haccepts.refresh_performs hexchange, hdata, hok⟩

end

/-! ## Groups -/

section
variable {n tag : Nat} {plan : Nat → CopyPlan}

/-- What a rank sends is what it stores at first, whatever it receives. -/
def delivered (plan : Nat → CopyPlan) (info : Nat → FieldInfo) (region : Nat → Region) (r s : Nat) :
    Bytes :=
  (plan r).carried (info r).typeSize ((region r).stored (info r)) s

/-- All ranks refresh a field, each of its own region and with its own plan. -/
theorem Family.refresh_ends (h : Family n tag plan) {info : Nat → FieldInfo}
    {region : Nat → Region} (haccepts : ∀ r < n, (plan r).Accepts (info r) (region r))
    (hroom : ∀ r < n, (region r).HasRoom (info r))
    (hlength : ∀ r < n,
      ((region r).stored (info r)).length = (region r).length * (info r).typeSize) :
    ∃ out : Nat → Except Failure Unit × Bytes, ∀ r < n,
      Program.Performs r (((plan r).refresh (info r)).run.run (region r))
        (((plan r).outgoing (delivered plan info region r)).map (Parcel.sent r) ++
          ((plan r).incoming fun s => delivered plan info region s r).map (Parcel.received r))
        (.done ((out r).1, ((region r).ensured (info r)).setBytes (info r).field (out r).2)) ∧
      (out r).2.length = (region r).length * (info r).typeSize ∧
      ((∀ entry ∈ (plan r).remoteSources, (delivered plan info region entry.1 r).length =
          Run.totalLength entry.2 * (info r).typeSize) → (out r).1 = .ok ()) := by
  have hone := fun r hr => @Sound.refresh_ends _ n (h.sound r hr) _ _ r (haccepts r hr) (hroom r hr)
    (hlength r hr) fun s => delivered plan info region s r
  choose! out hout using hone
  exact ⟨out, hout⟩

end

end CopyPlan

end HaloMesh
