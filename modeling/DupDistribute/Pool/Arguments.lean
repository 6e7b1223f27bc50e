import DupDistribute.Pool.Queue
import Mathlib.Data.List.Nodup
import Mathlib.Data.List.Pairwise

/-!
# The arguments that threadpool_add frees

`threadpool_add` frees the argument it finds in the slot it is about to write
(`threadpool.c:237-241`). That slot was last written `queue_max_size` adds before, so what is
freed is the argument of that task, whether or not its function has returned; and the first
`queue_max_size` adds free what `malloc` left in the array. Calls that find `shutdown` set work
on the slots without the lock and are not considered here.
-/

namespace DupDistribute.Pool

open DupDistribute.Base

variable {cfg : Config} {P P' : Threadpool} {es τ : List PoolEvent} {taskQueue : Nat → Task}

/-- The argument an event frees. -/
def PoolEvent.freedArg : PoolEvent → Option Nat
  | .freed arg => some arg
  | _ => none

/-- The arguments freed, in order. -/
def freed (τ : List PoolEvent) : List Nat := τ.filterMap PoolEvent.freedArg

/-- An argument that is freed belongs to a task added before that has returned. -/
def FreedReturned (before : List PoolEvent) (e : PoolEvent) : Prop :=
  ∀ arg, e = .freed arg → ∃ task ∈ added before, task.arg = some arg ∧ .returned task ∈ before

/-- Each argument that is freed belongs to a task added before that has returned, and none is
freed twice. -/
structure FreedSafely (τ : List PoolEvent) : Prop where
  returned : Always FreedReturned τ
  once : (freed τ).Nodup

/-- The task added `queue_max_size` adds before the next one. -/
def previous (cfg : Config) (τ : List PoolEvent) : Option Task :=
  (added τ).reverse[cfg.queueMaxSize - 1]?

/-- When a task is added, the one added `queue_max_size` adds before has returned, unless it has
no argument. -/
def AddedInTime (cfg : Config) (before : List PoolEvent) (e : PoolEvent) : Prop :=
  ∀ task, e = .added task → ∀ old, previous cfg before = some old → old.arg ≠ none →
    .returned old ∈ before

/-- What the slots have held: the array as `malloc` gave it, then the tasks added. An add
overwrites the entry at the number of adds before it. -/
def history (cfg : Config) (taskQueue : Nat → Task) (τ : List PoolEvent) : List Task :=
  (List.range cfg.queueMaxSize).map taskQueue ++ added τ

/-- As far as the array has been written it came without arguments, no argument is passed twice,
and whenever a task is added, the one added `queue_max_size` adds before has returned. -/
structure ReturnedInTime (cfg : Config) (taskQueue : Nat → Task) (τ : List PoolEvent) :
    Prop where
  null : ∀ i < cfg.queueMaxSize, i < (added τ).length → (taskQueue i).arg = none
  distinct : ((added τ).filterMap Task.arg).Nodup
  inTime : Always (AddedInTime cfg) τ

/-- The arguments passed differ from each other and from what `malloc` left in the array. -/
def FreshArguments (cfg : Config) (taskQueue : Nat → Task) (τ : List PoolEvent) : Prop :=
  ((history cfg taskQueue τ).filterMap Task.arg).Nodup

/-! ### What the slots hold -/

/-- The slots hold the last `queue_max_size` entries of the history, from the rear on, and what
was freed are the arguments of the entries before. -/
structure Recycled (cfg : Config) (taskQueue : Nat → Task) (τ : List PoolEvent)
    (P : Threadpool) : Prop where
  rear : P.queueRear = (added τ).length % cfg.queueMaxSize
  slots : ∀ d < cfg.queueMaxSize, (history cfg taskQueue τ)[(added τ).length + d]? =
    some (P.taskQueue (((added τ).length + d) % cfg.queueMaxSize))
  gone : freed τ = ((history cfg taskQueue τ).take (added τ).length).filterMap Task.arg

/-- What a step does to the slots, unless it belongs to a call that found `shutdown` set. -/
private theorem PoolDoes.slots {a : Act} (h : PoolDoes cfg P a P' es)
    (ho : P.Disciplined cfg) :
    (P'.taskQueue = P.taskQueue ∧ P'.queueRear = P.queueRear ∧
      (es = [] ∨ ∃ task, es = [.taken task] ∨ es = [.returned task])) ∨
    ∃ task, P'.taskQueue = Function.update P.taskQueue P.queueRear task ∧
      P'.queueRear = (P.queueRear + 1) % cfg.queueMaxSize ∧
      es = (P.taskQueue P.queueRear).arg.toList.map .freed ++ [.added task] := by
  cases h with
  | worker h =>
    cases h with
    | take => exact .inl ⟨rfl, rfl, .inr ⟨_, .inl rfl⟩⟩
    | returns task => exact .inl ⟨rfl, rfl, .inr ⟨task, .inr rfl⟩⟩
    | _ => exact .inl ⟨rfl, rfl, .inl rfl⟩
  | adder h =>
    cases h with
    | add task => exact .inr ⟨task, rfl, rfl, rfl⟩
    | late pc task hp => exact absurd hp (ho.not_late _ pc task)
    | _ => exact .inl ⟨rfl, rfl, .inl rfl⟩
  | manager h => cases h <;> exact .inl ⟨rfl, rfl, .inl rfl⟩
  | destroyer h => cases h <;> exact .inl ⟨rfl, rfl, .inl rfl⟩

/-- The slot that the next add writes. -/
private theorem Recycled.leftover (h : Recycled cfg taskQueue τ P) :
    (history cfg taskQueue τ)[(added τ).length]? = some (P.taskQueue P.queueRear) := by
  have h₀ := h.slots 0 cfg.one_le_queue
  rwa [Nat.add_zero, ← h.rear] at h₀

private theorem freed_append (τ es : List PoolEvent) : freed (τ ++ es) = freed τ ++ freed es :=
  List.filterMap_append

private theorem events_add (arg : Option Nat) (task : Task) :
    freed (arg.toList.map .freed ++ [.added task]) = arg.toList ∧
      added (arg.toList.map .freed ++ [.added task]) = [task] := by
  cases arg <;> exact ⟨rfl, rfl⟩

private theorem mod_ne {n m d : Nat} (h₀ : 0 < d) (hd : d < m) : (n + d) % m ≠ n % m := by
  intro h
  have hmod : Nat.ModEq m d 0 := Nat.ModEq.add_left_cancel' n (by simpa [Nat.ModEq] using h)
  rw [Nat.ModEq, Nat.mod_eq_of_lt hd, Nat.zero_mod] at hmod
  omega

private theorem length_history (cfg : Config) (taskQueue : Nat → Task) (τ : List PoolEvent) :
    (history cfg taskQueue τ).length = cfg.queueMaxSize + (added τ).length := by
  rw [history, List.length_append, List.length_map, List.length_range]

/-- The first entries of the history are the slots as `malloc` gave them. -/
private theorem getElem?_history_of_lt {i : Nat} (hi : i < cfg.queueMaxSize) :
    (history cfg taskQueue τ)[i]? = some (taskQueue i) := by
  have hlen : i < ((List.range cfg.queueMaxSize).map taskQueue).length := by simpa using hi
  rw [history, List.getElem?_append_left hlen, List.getElem?_map, List.getElem?_range hi]
  rfl

private theorem Recycled.add {task : Task} (h : Recycled cfg taskQueue τ P)
    (hq : P'.taskQueue = Function.update P.taskQueue P.queueRear task)
    (hr : P'.queueRear = (P.queueRear + 1) % cfg.queueMaxSize)
    (he : es = (P.taskQueue P.queueRear).arg.toList.map .freed ++ [.added task]) :
    Recycled cfg taskQueue (τ ++ es) P' := by
  have hone := cfg.one_le_queue
  have hlen := length_history cfg taskQueue τ
  obtain ⟨hf, ha⟩ := events_add (P.taskQueue P.queueRear).arg task
  have hadded : added (τ ++ es) = added τ ++ [task] := by rw [added_append, he, ha]
  have hcount : (added (τ ++ es)).length = (added τ).length + 1 := by
    rw [hadded, List.length_append, List.length_singleton]
  have hnext : history cfg taskQueue (τ ++ es) = history cfg taskQueue τ ++ [task] := by
    rw [history, hadded, ← List.append_assoc, history]
  constructor
  · rw [hr, h.rear, hcount, Nat.mod_add_mod]
  · intro d hd
    rw [hcount, hnext, hq, h.rear, Nat.add_assoc]
    by_cases hlast : d = cfg.queueMaxSize - 1
    · -- the slot just written
      subst hlast
      rw [Nat.add_sub_cancel' hone, Nat.add_mod_right, Function.update_self,
        List.getElem?_append_right (by omega), hlen, Nat.add_comm (added τ).length, Nat.sub_self]
      rfl
    · have hne := mod_ne (n := (added τ).length) (d := 1 + d) (m := cfg.queueMaxSize)
        (by omega) (by omega)
      rw [Function.update_of_ne hne, List.getElem?_append_left (by omega),
        h.slots (1 + d) (by omega)]
  · have hlt : (added τ).length < (history cfg taskQueue τ).length := by omega
    rw [freed_append, h.gone, hcount, hnext, List.take_append_of_le_length hlt,
      List.take_add_one, List.filterMap_append, h.leftover, he, hf]
    cases harg : (P.taskQueue P.queueRear).arg <;> simp [harg]

private theorem Recycled.other (h : Recycled cfg taskQueue τ P)
    (hq : P'.taskQueue = P.taskQueue) (hr : P'.queueRear = P.queueRear) (hf : freed es = [])
    (ha : added es = []) : Recycled cfg taskQueue (τ ++ es) P' := by
  have hadded : added (τ ++ es) = added τ := by rw [added_append, ha, List.append_nil]
  have hsame : history cfg taskQueue (τ ++ es) = history cfg taskQueue τ := by
    rw [history, hadded, history]
  constructor
  · rw [hr, hadded, h.rear]
  · rw [hq, hadded, hsame]
    exact h.slots
  · rw [freed_append, hf, List.append_nil, hadded, hsame, h.gone]

private theorem PoolDoes.recycled {a : Act} (h : PoolDoes cfg P a P' es)
    (ho : P.Disciplined cfg) (hr : Recycled cfg taskQueue τ P) :
    Recycled cfg taskQueue (τ ++ es) P' := by
  rcases h.slots ho with ⟨hq, hrear, rfl | ⟨task, rfl | rfl⟩⟩ | ⟨task, hq, hrear, he⟩
  · exact hr.other hq hrear rfl rfl
  · exact hr.other hq hrear rfl rfl
  · exact hr.other hq hrear rfl rfl
  · exact hr.add hq hrear he

/-- The array of a new pool is as `malloc` gave it. -/
private theorem threadpoolCreate_recycled (cfg : Config) (taskQueue : Nat → Task) :
    Recycled cfg taskQueue [] (threadpoolCreate cfg taskQueue) where
  rear := (Nat.zero_mod _).symm
  slots d hd := by
    have hzero : (added []).length = 0 := rfl
    rw [hzero, Nat.zero_add, Nat.mod_eq_of_lt hd, getElem?_history_of_lt hd]
    rfl
  gone := rfl

/-! ### Arguments -/

/-- Tasks with the same argument are the same, if no argument is passed twice. -/
private theorem eq_of_arg {tasks : List Task} (hn : (tasks.filterMap Task.arg).Nodup)
    {s t : Task} (hs : s ∈ tasks) (ht : t ∈ tasks) {arg : Nat} (hsa : s.arg = some arg)
    (hta : t.arg = some arg) : s = t := by
  by_contra hne
  have hp := List.pairwise_filterMap.mp hn
  have hsymm : Std.Symm (fun s t : Task ↦ ∀ a, s.arg = some a → ∀ b, t.arg = some b → a ≠ b) :=
    ⟨fun _ _ h b hb a ha ↦ (h a ha b hb).symm⟩
  exact hp.forall hs ht hne arg hsa arg hta rfl

/-- Where the array came without arguments, what is freed was passed. -/
private theorem Recycled.once (h : Recycled cfg taskQueue τ P)
    (hnull : ∀ i < cfg.queueMaxSize, i < (added τ).length → (taskQueue i).arg = none)
    (hn : ((added τ).filterMap Task.arg).Nodup) : (freed τ).Nodup := by
  have hfirst : (((List.range cfg.queueMaxSize).map taskQueue).take
      (added τ).length).filterMap Task.arg = [] := by
    rw [List.filterMap_eq_nil_iff]
    intro task hm
    obtain ⟨i, hi, rfl⟩ := List.mem_take_iff_getElem.mp hm
    have hlt : i < cfg.queueMaxSize := by
      rw [List.length_map, List.length_range] at hi
      omega
    simpa using hnull i hlt (by omega)
  rw [h.gone, history, List.take_append, List.filterMap_append, hfirst, List.nil_append]
  exact hn.sublist ((List.take_sublist _ _).filterMap _)

/-- The argument in the slot that the next add writes is that of the task added
`queue_max_size` adds before, if the array came without arguments. -/
private theorem leftover_arg (cfg : Config) (taskQueue : Nat → Task) (τ : List PoolEvent)
    (hnull : (added τ).length < cfg.queueMaxSize → (taskQueue (added τ).length).arg = none) :
    ((history cfg taskQueue τ)[(added τ).length]?).bind Task.arg =
      (previous cfg τ).bind Task.arg := by
  have hone := cfg.one_le_queue
  by_cases hlt : (added τ).length < cfg.queueMaxSize
  · have hnone : previous cfg τ = none := by
      rw [previous, List.getElem?_eq_none_iff, List.length_reverse]
      omega
    rw [hnone, getElem?_history_of_lt hlt]
    exact hnull hlt
  · have hsame : previous cfg τ = (added τ)[(added τ).length - cfg.queueMaxSize]? := by
      rw [previous, List.getElem?_reverse (by omega)]
      congr 1
      omega
    rw [hsame, history, List.getElem?_append_right (by simpa using hlt), List.length_map,
      List.length_range]

/-- The argument freed is the previous task's: it is freed in time exactly if that task has
returned. -/
private theorem freedReturned_iff {old : Task} {arg : Nat}
    (hn : ((added τ).filterMap Task.arg).Nodup) (hold : previous cfg τ = some old)
    (harg : old.arg = some arg) :
    FreedReturned τ (.freed arg) ↔ .returned old ∈ τ := by
  have hmem : old ∈ added τ := List.mem_reverse.mp (List.mem_of_getElem? hold)
  constructor
  · intro h
    obtain ⟨task, ht, hta, hret⟩ := h arg rfl
    rwa [eq_of_arg hn hmem ht harg hta]
  · rintro hret arg' he
    cases he
    exact ⟨old, hmem, harg, hret⟩

private theorem always_add_iff {task : Task} (hn : ((added τ).filterMap Task.arg).Nodup)
    (ih : Always FreedReturned τ ↔ Always (AddedInTime cfg) τ) :
    Always FreedReturned
        (τ ++ (((previous cfg τ).bind Task.arg).toList.map .freed ++ [.added task])) ↔
      Always (AddedInTime cfg)
        (τ ++ (((previous cfg τ).bind Task.arg).toList.map .freed ++ [.added task])) := by
  have hret (σ : List PoolEvent) : FreedReturned σ (.added task) := fun _ he ↦ (by cases he)
  rw [← List.append_assoc, always_concat, always_concat, and_iff_left (hret _)]
  cases hp : (previous cfg τ).bind Task.arg with
  | none =>
    -- nothing is freed, and nothing had to return
    have hdue : AddedInTime cfg τ (.added task) := by
      intro _ _ old hold harg
      rw [hold] at hp
      exact absurd hp harg
    rw [Option.toList_none, List.map_nil, List.append_nil, and_iff_left hdue, ih]
  | some arg =>
    obtain ⟨old, hold, harg⟩ := Option.bind_eq_some_iff.mp hp
    have hsame : previous cfg (τ ++ [.freed arg]) = some old := by
      rw [previous, added_append, show added [.freed arg] = [] from rfl, List.append_nil]
      exact hold
    have hdue : AddedInTime cfg (τ ++ [.freed arg]) (.added task) ↔ .returned old ∈ τ := by
      constructor
      · intro h
        simpa using h task rfl old hsame (by simp [harg])
      · rintro hr _ _ old' hold' _
        obtain rfl : old = old' := by simpa [hsame] using hold'
        simp [hr]
    have hfree : AddedInTime cfg τ (.freed arg) := fun _ he ↦ (by cases he)
    simp only [Option.toList_some, List.map_cons, List.map_nil]
    rw [always_concat, always_concat, hdue, freedReturned_iff hn hold harg, ih,
      and_iff_left hfree]

private theorem always_other_iff {e : PoolEvent} (hf : ∀ arg, e ≠ .freed arg)
    (ha : ∀ task, e ≠ .added task)
    (ih : Always FreedReturned τ ↔ Always (AddedInTime cfg) τ) :
    Always FreedReturned (τ ++ [e]) ↔ Always (AddedInTime cfg) (τ ++ [e]) := by
  have hfreed : FreedReturned τ e := fun arg he ↦ absurd he (hf arg)
  have hadded : AddedInTime cfg τ e := fun task he ↦ absurd he (ha task)
  rw [always_concat, always_concat, and_iff_left hfreed, and_iff_left hadded, ih]

/-! ### Whole runs -/

private theorem mem_freed {arg : Nat} : arg ∈ freed τ ↔ .freed arg ∈ τ := by
  rw [freed, List.mem_filterMap]
  constructor
  · rintro ⟨e, hm, he⟩
    cases e with
    | freed arg' =>
      obtain rfl : arg' = arg := by simpa [PoolEvent.freedArg] using he
      exact hm
    | _ => simp [PoolEvent.freedArg] at he
  · intro hm
    exact ⟨_, hm, rfl⟩

/-- An argument that is freed safely was passed. -/
private theorem passed_of_freed {arg : Nat} (h : Always FreedReturned τ) (hf : arg ∈ freed τ) :
    arg ∈ (added τ).filterMap Task.arg := by
  obtain ⟨before, after, rfl⟩ := List.append_of_mem (mem_freed.mp hf)
  obtain ⟨task, hm, harg, -⟩ := h before (.freed arg) after rfl arg rfl
  rw [added_append]
  exact List.mem_filterMap.mpr ⟨task, List.mem_append_left _ hm, harg⟩

/-- If the arguments are fresh and freed safely, none of those freed was left by `malloc`. -/
private theorem Recycled.null (h : Recycled cfg taskQueue τ P)
    (hfresh : FreshArguments cfg taskQueue τ) (hs : Always FreedReturned τ) :
    ∀ i < cfg.queueMaxSize, i < (added τ).length → (taskQueue i).arg = none := by
  intro i hi hlt
  cases harg : (taskQueue i).arg with
  | none => rfl
  | some arg =>
    have hgone : arg ∈ freed τ := by
      rw [h.gone]
      refine List.mem_filterMap.mpr ⟨taskQueue i, ?_, harg⟩
      exact List.mem_of_getElem? (i := i) (by rw [List.getElem?_take_of_lt hlt,
        getElem?_history_of_lt hi])
    have hleft : arg ∈ ((List.range cfg.queueMaxSize).map taskQueue).filterMap Task.arg :=
      List.mem_filterMap.mpr ⟨taskQueue i, List.mem_map_of_mem (List.mem_range.mpr hi), harg⟩
    rw [FreshArguments, history, List.filterMap_append] at hfresh
    exact absurd (passed_of_freed hs hgone) (List.disjoint_of_nodup_append hfresh hleft)

/-- While no call finds `shutdown` set: the slots are as the history says, and with an array
that came without arguments, all arguments distinct, the two conditions on the run agree. -/
private theorem recycled_of_run {P : Threadpool}
    (h : (pool cfg).RunIn (fun _ P a ↦ Unrefused P a) (threadpoolCreate cfg taskQueue) τ P) :
    Recycled cfg taskQueue τ P ∧
      ((∀ i < cfg.queueMaxSize, i < (added τ).length → (taskQueue i).arg = none) →
        ((added τ).filterMap Task.arg).Nodup →
        (Always FreedReturned τ ↔ Always (AddedInTime cfg) τ)) := by
  have hinv := h.invariant (fun τ P ↦ P.Disciplined cfg ∧ Recycled cfg taskQueue τ P ∧
    ((∀ i < cfg.queueMaxSize, i < (added τ).length → (taskQueue i).arg = none) →
      ((added τ).filterMap Task.arg).Nodup →
      (Always FreedReturned τ ↔ Always (AddedInTime cfg) τ)))
    ⟨(disciplined_iff_orderly rfl).mpr (threadpoolCreate_orderly cfg taskQueue),
      threadpoolCreate_recycled cfg taskQueue,
      fun _ _ ↦ ⟨fun _ ↦ always_nil _, fun _ ↦ always_nil _⟩⟩ ?_
  · exact hinv.2
  rintro τ P w a P' w' es ⟨ho, hr, ih⟩ hns hs
  have hdoes := poolDoes_of_step hs
  refine ⟨hdoes.disciplined hns ho, hdoes.recycled ho hr, fun hnull hn ↦ ?_⟩
  rw [added_append, List.filterMap_append] at hn
  have hbefore : ∀ i < cfg.queueMaxSize, i < (added τ).length → (taskQueue i).arg = none := by
    intro i hi hlt
    refine hnull i hi ?_
    rw [added_append, List.length_append]
    omega
  have ih := ih hbefore hn.of_append_left
  rcases hdoes.slots ho with ⟨-, -, rfl | ⟨task, rfl | rfl⟩⟩ | ⟨task, -, -, rfl⟩
  · rwa [List.append_nil]
  · exact always_other_iff (by simp) (by simp) ih
  · exact always_other_iff (by simp) (by simp) ih
  · have hslot (hlt : (added τ).length < cfg.queueMaxSize) :
        (taskQueue (added τ).length).arg = none := by
      refine hnull _ hlt ?_
      rw [added_append, (events_add _ _).2, List.length_append, List.length_singleton]
      omega
    have hleft := leftover_arg cfg taskQueue τ hslot
    rw [hr.leftover, Option.bind_some] at hleft
    rw [hleft]
    exact always_add_iff hn.of_append_left ih

/-- For every capacity and every interleaving in which no call finds `shutdown` set: if the
array came without arguments, no argument is passed twice and whenever a task is added the task
added `queue_max_size` adds before has returned, then arguments are freed safely. With arguments
that differ from each other and from what was in the array, this is also necessary. -/
theorem freedSafely_if_returned_in_time (cfg : Config) (taskQueue : Nat → Task)
    {τ : List PoolEvent} {P : Threadpool}
    (h : (pool cfg).RunIn (fun _ P a ↦ Unrefused P a) (threadpoolCreate cfg taskQueue) τ P) :
    (ReturnedInTime cfg taskQueue τ → FreedSafely τ) ∧
      (FreshArguments cfg taskQueue τ → FreedSafely τ → ReturnedInTime cfg taskQueue τ) := by
  obtain ⟨hr, hiff⟩ := recycled_of_run h
  constructor
  · rintro ⟨hnull, hn, ht⟩
    exact ⟨(hiff hnull hn).mpr ht, hr.once hnull hn⟩
  · intro hfresh hs
    have hnull := hr.null hfresh hs.returned
    have hn : ((added τ).filterMap Task.arg).Nodup := by
      rw [FreshArguments, history, List.filterMap_append] at hfresh
      exact hfresh.of_append_right
    exact ⟨hnull, hn, (hiff hnull hn).mp hs.returned⟩

/-- One slot. The argument of the first task is freed while its function still runs; and if
`malloc` left a pointer in the slot, the first add frees that. -/
theorem freed_while_running :
    let cfg : Config := ⟨1, 1, 1, by decide, by decide, by decide⟩
    let first : Task := ⟨1, some 7⟩
    (∃ τ P, (pool cfg).Open (threadpoolCreate cfg (fun _ ↦ ⟨0, none⟩)) τ P ∧
      (P.workers 1 = .running first ∧
        τ = [.added first, .taken first, .freed 7, .added ⟨2, some 8⟩]) ∧ ¬ FreedSafely τ) ∧
    ∃ τ P, (pool cfg).Open (threadpoolCreate cfg (fun _ ↦ ⟨0, some 9⟩)) τ P ∧
      τ = [.freed 9, .added first] ∧ ¬ FreedSafely τ := by
  intro cfg first
  constructor
  · obtain ⟨τ, P, hrun, hobs⟩ := Machine.exec_observe (pool cfg) (fun _ _ _ ↦ true)
      (threadpoolCreate cfg (fun _ ↦ ⟨0, none⟩))
      (List.replicate 5 ((), .adder 0 first none) ++ List.replicate 4 ((), .worker 1) ++
        List.replicate 5 ((), .adder 0 ⟨2, some 8⟩ none))
      (fun P τ ↦ P.workers 1 = .running first ∧
        τ = [.added first, .taken first, .freed 7, .added ⟨2, some 8⟩])
      (fun _ _ _ _ ↦ trivial) (by decide +kernel)
    refine ⟨τ, P, hrun, hobs, fun hsafe ↦ ?_⟩
    obtain ⟨task, -, -, hret⟩ := hsafe.returned [.added first, .taken first] (.freed 7) _
      hobs.2 7 rfl
    simp at hret
  · obtain ⟨τ, P, hrun, hobs⟩ := Machine.exec_observe (pool cfg) (fun _ _ _ ↦ true)
      (threadpoolCreate cfg (fun _ ↦ ⟨0, some 9⟩)) (List.replicate 5 ((), .adder 0 first none))
      (fun _ τ ↦ τ = [.freed 9, .added first]) (fun _ _ _ _ ↦ trivial) (by decide +kernel)
    refine ⟨τ, P, hrun, hobs, fun hsafe ↦ ?_⟩
    obtain ⟨task, -, -, hret⟩ := hsafe.returned [] (.freed 9) _ hobs 9 rfl
    cases hret

/-- One slot, and the second task is added when the first has returned. -/
theorem freedSafely_one_slot :
    let cfg : Config := ⟨1, 1, 1, by decide, by decide, by decide⟩
    let taskQueue : Nat → Task := fun _ ↦ ⟨0, none⟩
    let first : Task := ⟨1, some 7⟩
    let second : Task := ⟨2, some 8⟩
    ∃ τ P, (pool cfg).RunIn (fun _ P a ↦ Unrefused P a) (threadpoolCreate cfg taskQueue) τ P ∧
      τ = [.added first, .taken first, .returned first, .freed 7, .added second] ∧
      ReturnedInTime cfg taskQueue τ ∧ FreedSafely τ := by
  intro cfg taskQueue first second
  obtain ⟨τ, P, hrun, hobs⟩ := Machine.exec_observe (pool cfg) (fun _ P _ ↦ !P.shutdown)
    (threadpoolCreate cfg taskQueue)
    (List.replicate 5 ((), .adder 0 first none) ++ List.replicate 5 ((), .worker 1) ++
      List.replicate 5 ((), .adder 0 second none))
    (fun _ τ ↦ τ = [.added first, .taken first, .returned first, .freed 7, .added second])
    (fun _ _ a ha ↦ unrefused_of_up a (by simpa using ha)) (by decide +kernel)
  have hother (σ : List PoolEvent) (e : PoolEvent) (he : ∀ task, e ≠ .added task) :
      AddedInTime cfg σ e := fun task h ↦ absurd h (he task)
  have hfirst : AddedInTime cfg [] (.added first) := by
    intro _ _ old hold
    cases hold
  have hsecond : AddedInTime cfg [.added first, .taken first, .returned first, .freed 7]
      (.added second) := by
    intro _ _ old hold _
    cases hold
    simp
  have h₁ := always_concat.mpr ⟨always_nil (AddedInTime cfg), hfirst⟩
  have h₂ := always_concat.mpr ⟨h₁, hother _ (.taken first) (by simp)⟩
  have h₃ := always_concat.mpr ⟨h₂, hother _ (.returned first) (by simp)⟩
  have h₄ := always_concat.mpr ⟨h₃, hother _ (.freed 7) (by simp)⟩
  have hin : ReturnedInTime cfg taskQueue τ := by
    rw [hobs]
    exact ⟨fun _ _ _ ↦ rfl, by decide, always_concat.mpr ⟨h₄, hsecond⟩⟩
  exact ⟨τ, P, hrun, hobs, hin, (freedSafely_if_returned_in_time cfg _ hrun).1 hin⟩

end DupDistribute.Pool
