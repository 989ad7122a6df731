import NurseryRota.Proofs.ReportByDay
import NurseryRota.Proofs.Tables

/-!
# Views of a table of bookings

Listed, the bookings of a rota are a snapshot with different ids, and the part of the table that
a day keeps is the snapshot's part of that day.
-/

namespace NurseryRota

namespace Table.Keyed

variable {t : Table Booking}

theorem distinct (ht : t.Keyed) : (Snapshot.ofBookings t.values).Distinct := by
  have hids : (t.entries.map Prod.fst).Nodup := by
    rw [List.nodup_iff_pairwise_ne, List.pairwise_map]
    refine t.ascending.imp ?_
    rintro ⟨j, b⟩ ⟨k, c⟩ hlt heq
    simp only at hlt heq
    subst heq
    exact Nat.lt_irrefl _ hlt
  rw [← ids_values ht] at hids
  exact ((sortBy_perm Booking.key t.values).map Booking.id).nodup_iff.mpr hids

end Table.Keyed

theorem Snapshot.size_ofBookings (bookings : List Booking) :
    (Snapshot.ofBookings bookings).size = bookings.length :=
  length_sortBy Booking.key bookings

theorem Rota.size_view_all (r : Rota) : (r.view .all).shifts.size = r.shiftCount :=
  (Snapshot.size_ofBookings r.shifts.values).trans (List.length_map _)

theorem Snapshot.ofBookings_filter (bookings : List Booking) (keep : Booking → Bool) :
    Snapshot.ofBookings (bookings.filter keep) = (Snapshot.ofBookings bookings).filter keep :=
  Snapshot.ext (sortBy_filter Booking.key keep bookings)

theorem Snapshot.ofBookings_filter_day (t : Table Booking) (d : Weekday) :
    Snapshot.ofBookings (t.filter fun _ b => b.day = d.number).values =
      (Snapshot.ofBookings t.values).onDay d := by
  rw [Table.values_filter t fun b => decide (b.day = d.number)]
  exact ofBookings_filter t.values _

theorem Snapshot.ofBookings_filter_undated (t : Table Booking) :
    Snapshot.ofBookings (t.filter fun _ b => b.weekday? = none).values =
      (Snapshot.ofBookings t.values).undated := by
  rw [Table.values_filter t fun b => decide (b.weekday? = none)]
  exact ofBookings_filter t.values _

end NurseryRota
