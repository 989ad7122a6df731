import NurseryRota.Report

/-!
# Validation of a snapshot

A snapshot is filed by project, every project's team is checked on its own, and the bookings left
out join the report.  Conflicts are looked for among staff only: a child booked twice is counted
once and is no conflict.
-/

namespace NurseryRota

/-- The report on one project's team: the conflicts of its staff, and the shortages of each
day. -/
def Team.assemble (t : Team) (project : ProjectId) (rules : Rules) (policy : Policy) :
    Except Fault Report := do
  let shortages ← Weekday.all.mapM (t.shortages project rules policy)
  return .ofEntries
    ((conflicts t.staff).map .conflict ++ shortages.flatten.map .shortage) []

def Snapshot.validate (s : Snapshot) (roster : Roster) (rules : Rules) (policy : Policy) :
    Except Fault Report := do
  let intake := Intake.ofSnapshot s roster
  let parts ← intake.teams.mapM fun (project, team) => team.assemble project rules policy
  return (Report.merge parts).addRejections intake.rejected

end NurseryRota
