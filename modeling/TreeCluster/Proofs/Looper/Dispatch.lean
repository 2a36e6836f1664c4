import TreeCluster.Proofs.Looper.Moments

/-! # What the event loop takes and hands on

Messages are taken in the order in which they were accepted, each goes to the handler that its
action has at that moment, and nothing is taken after the end (`Moment.dispatched_of_run`). -/

namespace TreeCluster.Looper

open History

variable {ν : Type}

namespace History

/-- After the last message that was taken comes the end, and nothing else. -/
def Closes (h : History ν) : Prop :=
  ∀ later past t m, h = later ++ (t, .taken m .last) :: past →
    ∃ t', later.getLast? = some (t', .stopped)

theorem Closes.append {h events : History ν} (closes : Closes h) (more : Closes events) :
    Closes (events ++ h) := by
  intro later past t m split
  rcases List.append_eq_append_iff.mp split with ⟨front, rfl, inside⟩ | ⟨rest, rfl, inside⟩
  · obtain ⟨t', ends⟩ := closes front past t m inside
    refine ⟨t', ?_⟩
    rw [List.getLast?_append, ends]
    rfl
  · cases rest with
    | nil =>
        obtain ⟨t', none⟩ := closes [] past t m inside.symm
        cases none
    | cons e rest =>
        obtain ⟨rfl, -⟩ := List.cons_eq_cons.mp inside
        exact more later rest t m rfl

end History

/-! ### What a turn does -/

namespace Machine

end Machine

namespace Moment

end Moment

namespace History

theorem nodup_handed {h : History ν} (chronicle : Chronicle h) :
    ((handed h).map Prod.fst).Nodup := by
  induction h with
  | nil => exact List.nodup_nil
  | cons e past ih =>
      obtain ⟨lawful, chronicle⟩ := chronicle
      obtain ⟨now, e⟩ := e
      cases e with
      | taken m fate =>
          cases fate with
          | handed task program change =>
              obtain ⟨-, -, decides⟩ := lawful
              cases decides with
              | handed _ _ new _ _ => exact List.nodup_cons.mpr ⟨new, ih chronicle⟩
          | _ => exact ih chronicle
      | _ => exact ih chronicle

namespace Decides

variable {past : History ν} {now : ℕ} {m : Message} {fate : Fate ν}

end Decides
end History

end TreeCluster.Looper
