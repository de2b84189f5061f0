import Curtail.Proofs.Engine.Service

namespace Curtail

namespace Service

/-- The program is carried out between two states of the engine. -/
inductive Performs {α : Type} : Service → Program α → α → Service → Prop
  | done (s : Service) (a : α) : Performs s (.done a) a s
  | step {s between later : Service} {p : Program α} {a : α} :
      Step s between → Performs between p a later → Performs s p a later
  | call {s between later : Service} {r : Request} {next : r.Reply → Program α} {reply : r.Reply} {a : α} :
      s.storage.Serves r reply between.storage → Step s between → Performs between (next reply) a later →
      Performs s (.ask r next) a later

namespace Performs

variable {α β : Type} {s later : Service} {p : Program α} {a : α}

theorem run (performs : s.Performs p a later) : Relation.ReflTransGen Step s later := by
  induction performs with
  | done s a => exact .refl
  | step step _ ih | call _ step _ ih => exact .head step ih

theorem of_done {b : α} (performs : s.Performs (.done a) b later) :
    b = a ∧ Relation.ReflTransGen Step s later := by
  generalize ended : Program.done a = p at performs
  induction performs with
  | done s b =>
      cases ended
      exact ⟨rfl, .refl⟩
  | step step _ ih =>
      obtain ⟨same, run⟩ := ih ended
      exact ⟨same, .head step run⟩
  | call _ _ _ _ => cases ended

theorem of_ask {r : Request} {next : r.Reply → Program α} (performs : s.Performs (.ask r next) a later) :
    ∃ t between reply, Relation.ReflTransGen Step s t ∧ t.storage.Serves r reply between.storage ∧
      Step t between ∧ between.Performs (next reply) a later := by
  generalize asks : Program.ask r next = p at performs
  induction performs with
  | done _ _ => cases asks
  | step step _ ih =>
      obtain ⟨t, between, reply, run, rest⟩ := ih asks
      exact ⟨t, between, reply, .head step run, rest⟩
  | call serves step others _ =>
      cases asks
      exact ⟨_, _, _, .refl, serves, step, others⟩

theorem of_andThen {f : α → Program β} {b : β} (performs : s.Performs (p.andThen f) b later) :
    ∃ a between, s.Performs p a between ∧ between.Performs (f a) b later := by
  generalize sequence : p.andThen f = whole at performs
  induction performs generalizing p with
  | done s b =>
      cases p with
      | done a =>
          change f a = _ at sequence
          exact ⟨a, s, .done s a, sequence ▸ .done s b⟩
      | ask r next => cases sequence
  | step step _ ih =>
      obtain ⟨a, between, first, rest⟩ := ih sequence
      exact ⟨a, between, .step step first, rest⟩
  | @call s _ _ _ _ _ _ serves step others ih =>
      cases p with
      | done a =>
          change f a = _ at sequence
          exact ⟨a, s, .done s a, sequence ▸ .call serves step others⟩
      | ask r next =>
          cases sequence
          obtain ⟨a, between, first, rest⟩ := ih rfl
          exact ⟨a, between, .call serves step first, rest⟩

end Performs

theorem performs_of_run {s later : Service} {position : Nat} {task : Task}
    {rest : Program (Except Failure task.Result)} {result : Except Failure task.Result}
    (run : Relation.ReflTransGen Step s later) (present : s.clients[position]? = some ⟨task, rest⟩)
    (ended : later.clients[position]? = some ⟨task, .done result⟩) : s.Performs rest result later := by
  induction run using Relation.ReflTransGen.head_induction_on generalizing rest with
  | refl =>
      cases present.symm.trans ended
      exact .done later result
  | head step _ ih =>
      rename_i s between
      have inside := (List.getElem?_eq_some_iff.mp present).1
      cases step with
      | enter c other =>
          refine .step (.enter c other) (ih ?_)
          rw [List.getElem?_append_left inside]
          exact present
      | @call place other request next reply storage turn serves =>
          by_cases same : position = place
          · subst same
            cases present.symm.trans turn
            exact .call serves (.call turn serves) (ih (List.getElem?_set_self inside))
          · refine .step (.call turn serves) (ih ?_)
            rw [List.getElem?_set_ne (Ne.symm same)]
            exact present
      | reopen here started => exact .step (.reopen here started) (ih present)

end Service

namespace Operation

variable {α β : Type} {s later : Service}

theorem performs_bind {op : Operation α} {f : α → Operation β} {b : β}
    (performs : s.Performs (op >>= f).run (.ok b) later) :
    ∃ a between, s.Performs op.run (.ok a) between ∧ between.Performs (f a).run (.ok b) later := by
  obtain ⟨result, between, first, rest⟩ := Service.Performs.of_andThen performs
  cases result with
  | ok a => exact ⟨a, between, first, rest⟩
  | error e => cases rest.of_done.1

theorem performs_query {q : Query} {answer : q.Answer}
    (performs : s.Performs (query q).run (.ok answer) later) :
    ∃ t, Relation.ReflTransGen Service.Step s t ∧ Relation.ReflTransGen Service.Step t later ∧
      answer = t.index.answer q := by
  obtain ⟨t, between, reply, before, serves, step, rest⟩ := performs.of_ask
  refine ⟨t, before, .head step rest.run, ?_⟩
  generalize between.storage = storage at serves
  cases serves with
  | query _ => exact Except.ok.inj rest.of_done.1
  | queryFailed _ e => cases rest.of_done.1

theorem performs_requireEvent {id : EventId} {e : Event}
    (performs : s.Performs (requireEvent id).run (.ok e) later) :
    ∃ t, Relation.ReflTransGen Service.Step s t ∧ Relation.ReflTransGen Service.Step t later ∧
      t.index.events.get? id = some e := by
  obtain ⟨answer, between, first, rest⟩ := performs_bind performs
  obtain ⟨t, before, after, rfl⟩ := performs_query first
  refine ⟨t, before, after.trans rest.run, ?_⟩
  cases found : t.index.events.get? id with
  | none =>
      simp only [Index.answer, found] at rest
      cases rest.of_done.1
  | some f =>
      simp only [Index.answer, found] at rest
      rw [Except.ok.inj rest.of_done.1]

end Operation

def Program.Asks {α : Type} (p : Program α) (q : Query) (answer : q.Answer) (rest : Program α) : Prop :=
  ∃ next, p = .ask (.query q) next ∧ next (.ok answer) = rest

namespace Service

theorem reaches_query {s : Service} {index : Index} {position : Nat} {task : Task} {q : Query}
    {answer : q.Answer} {p rest : Program (Except Failure task.Result)} (here : s.storage = .memory index)
    (present : s.clients[position]? = some ⟨task, p⟩) (asks : p.Asks q answer rest)
    (answered : index.answer q = answer) :
    ∃ later, Step s later ∧ later.storage = .memory index ∧ later.clients[position]? = some ⟨task, rest⟩ := by
  obtain ⟨next, rfl, rfl⟩ := asks
  have serves : s.storage.Serves (.query q) (.ok answer) s.storage := by
    rw [here, ← answered]
    exact .query q
  exact ⟨_, .call present serves, here, List.getElem?_set_self (List.getElem?_eq_some_iff.mp present).1⟩

end Service

end Curtail
