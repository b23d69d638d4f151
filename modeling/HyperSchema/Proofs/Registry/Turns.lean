import HyperSchema.Proofs.Registry.Closure
import Mathlib.Logic.Function.Iterate

/-!
# Compiling ends

Working through the queue goes turn by turn, and nothing in a turn counts how many there have been.
A turn takes one URI off the queue and may put many on it: the one that it is renamed to, or the
targets of the schema that is read. A URI that has to wait is neither done nor queued, so it can
come back in the same run. All the same the queue is empty in the end, whatever the documents are:
the URIs that can come up are known from the start, and only those that are not done yet put any on
the queue. Where the turns end is what compiling answers, so the bound that the loop is given
changes nothing.

What waits goes back into the queue, and nothing else is left there. The documents stay what they
are in the meantime, so what waits leads nowhere still.
-/

namespace HyperSchema.Registry

/-- A registry at work, with what has been put aside to wait and the first error. -/
structure Working where
  registry : Registry
  waiting : List String
  failure : Option PatternError

namespace Working

/-- One turn: the next URI is taken off the queue, and compiled unless it is done. When there is no
next one, what waits goes back into the queue. -/
def turn (w : Working) : (Registry × Option PatternError) ⊕ Working :=
  match w.registry.queue with
  | [] => .inl ({ w.registry with queue := w.waiting }, w.failure)
  | uri :: rest =>
    let r := { w.registry with queue := rest }
    if r.handled.contains uri then .inr { w with registry := r }
    else
      let (r, error, waits) := r.compileUri uri
      .inr ⟨r, if waits then w.waiting ++ [uri] else w.waiting, w.failure.or error⟩

/-- One turn more; work that has come to its end stays there. -/
def goOn :
    (Registry × Option PatternError) ⊕ Working → (Registry × Option PatternError) ⊕ Working :=
  Sum.elim .inl turn

variable {w : Working} {uris : List String} {result : Registry × Option PatternError} {n : Nat}

theorem iterate_goOn_ended (n : Nat) (result : Registry × Option PatternError) :
    goOn^[n] (.inl result) = .inl result :=
  Function.iterate_fixed rfl n

/-- The turns end as soon as there are more of them than there is work. -/
theorem exists_iterate_goOn (hcovers : Covers uris w.registry)
    (hn : work uris w.registry < n) : ∃ result, goOn^[n] (.inr w) = .inl result := by
  induction n generalizing w with
  | zero => exact absurd hn (Nat.not_lt_zero _)
  | succ n ih =>
      rw [Function.iterate_succ_apply, goOn, Sum.elim_inr, turn]
      cases hqueue : w.registry.queue with
      | nil => exact ⟨_, iterate_goOn_ended n _⟩
      | cons uri rest =>
          have htail := hcovers.tail hqueue
          dsimp only
          split
          · have hless := work_tail_lt uris hqueue
            exact ih htail (Nat.lt_of_lt_of_le hless (Nat.le_of_lt_succ hn))
          · next hopen =>
            have hcompiles := compiles_compileUri { w.registry with queue := rest } uri
            have huri : uri ∈ uris := hcovers.queue uri (hqueue ▸ List.mem_cons_self)
            have hless := hcovers.work_lt hqueue
              (fun hdone => hopen (List.contains_iff_mem.2 hdone)) hcompiles
            exact ih (htail.compiles huri hcompiles)
              (Nat.lt_of_lt_of_le hless (Nat.le_of_lt_succ hn))

/-- A loop with a bound answers what that many turns come to. -/
theorem drain_eq_of_iterate (h : goOn^[n] (.inr w) = .inl result) :
    drain n w.registry w.waiting w.failure = result := by
  induction n generalizing w with
  | zero => cases h
  | succ n ih =>
      rw [Function.iterate_succ_apply, goOn, Sum.elim_inr, turn] at h
      rw [drain]
      cases hqueue : w.registry.queue with
      | nil =>
          rw [hqueue, ← goOn, iterate_goOn_ended] at h
          exact Sum.inl.inj h
      | cons uri rest =>
          rw [hqueue] at h
          dsimp only at h ⊢
          split
          · next hdone =>
            rw [if_pos hdone] at h
            exact ih h
          · next hopen =>
            rw [if_neg hopen] at h
            exact ih h

end Working

open Working (goOn)

variable {r : Registry} {uri : String}

/-- The turns come to what compiling answers. The references in the store and the queue bound their
number. -/
theorem iterate_goOn {n : Nat} (hn : r.drainBound ≤ n) :
    goOn^[n] (.inr ⟨r, [], none⟩) = .inl r.compile := by
  obtain ⟨result, hend⟩ :=
    Working.exists_iterate_goOn (w := ⟨r, [], none⟩) r.covers_reachable r.work_reachable_lt
  obtain ⟨more, rfl⟩ := Nat.exists_eq_add_of_le' hn
  rw [Function.iterate_add_apply, hend, Working.iterate_goOn_ended, compile,
    Working.drain_eq_of_iterate hend]

/-- Compiling keeps the documents, and only what leads nowhere in them is left in the queue. -/
theorem not_settled_of_mem_queue_compile :
    Store.SameDocuments r.store r.compile.1.store
      ∧ ∀ u ∈ r.compile.1.queue, ¬r.store.Settled u := by
  have hstep : ∀ (r' : Registry) u rest waiting (failure : Option PatternError) r'' error waits,
      r'.queue = u :: rest → u ∉ r'.handled →
        (Store.SameDocuments r.store r'.store ∧ ∀ v ∈ waiting, ¬r.store.Settled v) →
        Compiles { r' with queue := rest } u r'' error waits →
          Store.SameDocuments r.store r''.store
            ∧ ∀ v ∈ (if waits then waiting ++ [u] else waiting), ¬r.store.Settled v := by
    intro r' u rest waiting _ r'' _ waits _ _ hboth hcompiles
    obtain ⟨hsame, hwaiting⟩ := hboth
    refine ⟨hsame.trans hcompiles.sameDocuments, ?_⟩
    cases waits with
    | false => exact hwaiting
    | true =>
        have hunsettled : ¬r.store.Settled u := by
          intro hsettled
          have hgoes := hcompiles.waits_iff.2 (hsame.settled_iff.2 hsettled)
          exact Bool.noConfusion hgoes
        exact List.forall_mem_append.2 ⟨hwaiting, List.forall_mem_singleton.2 hunsettled⟩
  obtain ⟨r', waiting, failure, ⟨hsame, hwaiting⟩, -, hcompile⟩ :=
    compile_induction
      (P := fun r' waiting _ =>
        Store.SameDocuments r.store r'.store ∧ ∀ u ∈ waiting, ¬r.store.Settled u)
      (fun _ _ _ _ _ _ _ hboth => hboth) hstep
      ⟨.rfl, fun _ hu => absurd hu List.not_mem_nil⟩
  rw [hcompile]
  exact ⟨hsame, hwaiting⟩

/-- Compiling ends in every registry, and what it leaves in the queue leads nowhere. -/
theorem compile_ends (r : Registry) :
    (∀ n, r.drainBound ≤ n → goOn^[n] (.inr ⟨r, [], none⟩) = .inl r.compile)
      ∧ ∀ u ∈ r.compile.1.queue, (r.compile.1.store.resolve? u).1 = .ok none := by
  refine ⟨fun n hn => iterate_goOn hn, fun u hu => resolve?_of_not_settled ?_⟩
  obtain ⟨hsame, hwaiting⟩ := not_settled_of_mem_queue_compile (r := r)
  rw [hsame.settled_iff]
  exact hwaiting u hu

/-- A schema that is another name of one that never comes, one that refers to itself, and two that
refer to each other. The one that never comes is a root as well. -/
def entangled : List Command :=
  [.schema "a" (some (.object [("$ref", .string "gone")])) none,
    .schema "b" (some (.object [("$ref", .string "#")])) none,
    .schema "c" (some (.object [("$ref", .string "d")])) none,
    .schema "d" (some (.object [("$ref", .string "c")])) none,
    .schema "gone" none none]

theorem compile_ends_entangled :
    "a" ∈ ((empty .standard).obeyAll entangled).compile.1.queue
      ∧ (((empty .standard).obeyAll entangled).compile.1.store.resolve? "a").1 = .ok none := by
  have hqueue : "a" ∈ ((empty .standard).obeyAll entangled).compile.1.queue := by decide +kernel
  exact ⟨hqueue, (compile_ends _).2 "a" hqueue⟩

end HyperSchema.Registry
