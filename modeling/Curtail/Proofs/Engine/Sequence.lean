import Curtail.Proofs.Engine.Summary

namespace Curtail

structure Turn where
  task : Task
  calls : List Exchange
  result : Except Failure task.Result

namespace Turn

def summary? : Turn → Option (EventId × Progress)
  | ⟨.getSummary id, _, .ok progress⟩ => some (id, progress)
  | _ => none

theorem eq_of_summary? {turn : Turn} {id : EventId} {progress : Progress}
    (found : turn.summary? = some (id, progress)) : ∃ calls, turn = ⟨.getSummary id, calls, .ok progress⟩ := by
  obtain ⟨task, calls, result⟩ := turn
  cases task with
  | getSummary event =>
      cases result with
      | ok view =>
          obtain ⟨rfl, rfl⟩ := Prod.mk.inj (Option.some.inj found)
          exact ⟨calls, rfl⟩
      | error e => cases found
  | _ => cases found

end Turn

theorem Program.Runs.onward {α : Type} {index later : Index} {calls : List Exchange} {p : Program α} {a : α}
    (runs : p.Runs index calls a later) : index.Onward later := by
  induction runs with
  | done index a => exact .refl index
  | ask replies others ih => exact replies.serves.onward.trans ih

namespace Index

/-- Tasks under one configuration lead from one index to another. -/
inductive Leads (c : Configuration) : Index → List Turn → Index → Prop
  | nil (index : Index) : Leads c index [] index
  | cons {index between later : Index} {turn : Turn} {turns : List Turn} :
      (turn.task.operation c).run.Runs index turn.calls turn.result between →
      Leads c between turns later → Leads c index (turn :: turns) later

namespace Leads

variable {c : Configuration} {index between later : Index} {turn : Turn} {turns others : List Turn}

theorem split (leads : index.Leads c (turns ++ others) later) :
    ∃ between, index.Leads c turns between ∧ between.Leads c others later := by
  induction turns generalizing index with
  | nil => exact ⟨index, .nil index, leads⟩
  | cons turn turns ih =>
      cases leads with
      | cons runs rest =>
          obtain ⟨between, first, last⟩ := ih rest
          exact ⟨between, .cons runs first, last⟩

theorem singleton_iff : index.Leads c [turn] later ↔
    (turn.task.operation c).run.Runs index turn.calls turn.result later := by
  constructor
  · intro leads
    cases leads with
    | cons runs rest =>
        cases rest with
        | nil => exact runs
  · exact fun runs => .cons runs (.nil later)

theorem onward (leads : index.Leads c turns later) : index.Onward later := by
  induction leads with
  | nil index => exact .refl index
  | cons runs _ ih => exact runs.onward.trans ih

theorem made (leads : index.Leads c turns later) (made : index.Made) : later.Made := by
  induction leads with
  | nil index => exact made
  | @cons index _ _ turn _ runs _ ih => exact ih (runs.made (turn.task.commits c index).run made)

theorem answered (leads : index.Leads c (turns ++ [turn]) later) (made : index.Made) {id : EventId}
    {progress : Progress} (answers : turn.summary? = some (id, progress)) :
    ∃ e, later.events.get? id = some e ∧ progress = later.progress c e := by
  obtain ⟨between, -, last⟩ := leads.split
  obtain ⟨calls, rfl⟩ := Turn.eq_of_summary? answers
  obtain ⟨-, -, -, e, -, -, found, same⟩ :=
    Operation.runs_getSummary (leads.made made).lifecycle.toKeyed (singleton_iff.mp last)
  exact ⟨e, found, same⟩

end Leads

end Index

namespace Host

variable {σ : Type}

def turn (host : Host σ) (c : Configuration) (task : Task) (s : σ) : Turn × σ :=
  let (result, later, calls) := host.run (task.operation c).run s
  (⟨task, calls, result⟩, later)

def turns (host : Host σ) (c : Configuration) : List Task → σ → List Turn × σ
  | [], s => ([], s)
  | task :: tasks, s =>
    let (turn, between) := host.turn c task s
    let (others, later) := turns host c tasks between
    (turn :: others, later)

theorem leads (host : Host σ) (c : Configuration) (tasks : List Task) (s : σ) :
    (host.index s).Leads c (host.turns c tasks s).1 (host.index (host.turns c tasks s).2) := by
  induction tasks generalizing s with
  | nil => exact .nil _
  | cons task tasks ih => exact .cons (host.runs (task.operation c).run s) (ih _)

end Host

end Curtail
