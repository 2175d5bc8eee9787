/-
# Progress reports

Progress is reported as how much of a total is done. Reports never go down, never exceed the total,
and come at intervals, except for the last one.
-/

namespace Disassembly

/-- The state of progress reports, with the reports made. -/
structure Progress where
  total : Nat
  /-- The highest value reported. -/
  reported : Nat := 0
  /-- The least value for the next report. -/
  next : Nat := 0
  /-- The reports made, each with the total. -/
  reports : Array (Nat × Nat) := #[]

namespace Progress

/-- The least distance between two reports. -/
def interval : Nat := 256

/-- Report that `done` is done, unless the last report is too close. -/
def report (p : Progress) (done : Nat) : Progress :=
  let done := max (min done p.total) p.reported
  if done < p.next then p
  else { p with reported := done, next := done + interval, reports := p.reports.push (done, p.total) }

/-- Report that everything is done. -/
def finish (p : Progress) : Progress :=
  { p with reported := p.total, reports := p.reports.push (p.total, p.total) }

end Progress
end Disassembly
