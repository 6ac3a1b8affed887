import ExecState.Commit.Basic
import Mathlib.Algebra.Order.Floor.Div
import Mathlib.Data.List.Induction
import Mathlib.Data.List.Perm.Basic
import Mathlib.Logic.Relation

/-!
# Workers and their shares

The order in which the workers finish is not known beforehand. First it is a parameter of the
results, then it comes about by the steps of a pool.
-/

namespace ExecState.FanOut

/-!
## Work shared among workers is done once for each item

Whatever order the workers finish in, the results are those of the items in some order
(`perm_run`), and the order is settled by the cut and by the arrival alone, not by the work that
is done (`run_eq_map`).
-/

variable {α β : Type}

theorem filterMap_getElem?_range (l : List α) : (List.range l.length).filterMap (l[·]?) = l := by
  induction l using List.reverseRecOn with
  | nil => rfl
  | append_singleton l x ih =>
    have hinit : (List.range l.length).filterMap ((l ++ [x])[·]?) = l := by
      conv_rhs => rw [← ih]
      refine List.filterMap_congr fun i hi ↦ ?_
      exact List.getElem?_append_left (List.mem_range.mp hi)
    rw [List.length_append, List.length_singleton, List.range_succ, List.filterMap_append, hinit]
    simp

/-- The work may as well be done after the results were strung together. -/
theorem run_eq_map (arrival : Arrival) (threads : Nat) (f : α → β) (items : List α) :
    run arrival threads f items = (run arrival threads id items).map f := by
  -- the cut does not look at the work, so mapping moves out of every stretch
  have hlookup : ∀ (g : α → β) (i : Nat),
      ((shares threads items).map (·.map g))[i]? = ((shares threads items)[i]?).map (·.map g) :=
    fun g i ↦ List.getElem?_map
  have hid : (shares threads items).map (·.map id) = shares threads items := by simp
  simp only [run, List.map_flatten, List.map_filterMap, hlookup, hid, List.length_map]

theorem perm_run_id (arrival : Arrival) (threads : Nat) (items : List α) :
    (run arrival threads id items).Perm items := by
  have hid : (shares threads items).map (·.map id) = shares threads items := by simp
  rw [run, hid]
  have horder := (arrival.order_perm (shares threads items).length).filterMap
    ((shares threads items)[·]?)
  rw [filterMap_getElem?_range] at horder
  refine horder.flatten.trans ?_
  rw [shares, flatten_chunks]

theorem perm_run (arrival : Arrival) (threads : Nat) (f : α → β) (items : List α) :
    (run arrival threads f items).Perm (items.map f) := by
  rw [run_eq_map]
  exact (perm_run_id arrival threads items).map f

end ExecState.FanOut

namespace ExecState.FanOut

/-!
## How a row of items is cut

The items are divided among a team by a quotient that is rounded up, and they are then cut into
stretches of that size. Rounding leaves some of the team without work: five items among four workers
make stretches of two, so that three workers are enough. The number of stretches is again a quotient
that is rounded up (`length_chunks`), and rounding twice does not lead past the team
(`length_shares_le`).

A stretch is found at its multiple of the size (`getElem?_chunks`). From this the results can be
written out for every order of arrival (`run_eq_flatMap`).
-/

variable {α β : Type} {size : Nat}

/-! ### Stretches of one size -/

/-- Every stretch lies at its multiple of the size. -/
theorem getElem?_chunks (hsize : 0 < size) (items : List α) (i : Nat) :
    (chunks size items)[i]?
      = if i * size < items.length then some ((items.drop (i * size)).take size) else none := by
  fun_induction chunks size items generalizing i with
  | case1 => rw [List.getElem?_nil, List.length_nil, if_neg (Nat.not_lt_zero _)]
  | case2 x rest ih =>
    obtain ⟨k, rfl⟩ : ∃ k, size = k + 1 := ⟨size - 1, by omega⟩
    rw [Nat.add_sub_cancel] at ih ⊢
    cases i with
    | zero =>
      rw [List.getElem?_cons_zero, Nat.zero_mul, List.length_cons, if_pos (Nat.zero_lt_succ _),
        List.drop_zero, List.take_succ_cons]
    | succ i =>
      have hdrop : (x :: rest).drop ((i + 1) * (k + 1)) = (rest.drop k).drop (i * (k + 1)) := by
        rw [Nat.succ_mul, ← Nat.add_assoc, List.drop_succ_cons, Nat.add_comm, List.drop_drop]
      have hlength : i * (k + 1) < (rest.drop k).length
          ↔ (i + 1) * (k + 1) < (x :: rest).length := by
        rw [List.length_drop, List.length_cons, Nat.succ_mul]
        omega
      rw [List.getElem?_cons_succ, ih, hdrop]
      exact if_congr hlength rfl rfl

theorem length_chunks (hsize : 0 < size) (items : List α) :
    (chunks size items).length = items.length ⌈/⌉ size := by
  rw [Nat.ceilDiv_eq_add_pred_div]
  fun_induction chunks size items with
  | case1 => exact (Nat.div_eq_of_lt (by rw [List.length_nil]; omega)).symm
  | case2 x rest ih =>
    rw [List.length_cons, ih, List.length_drop, List.length_cons]
    rcases Nat.lt_or_ge rest.length size with hlt | hge
    · -- the last stretch, of which nothing is left
      have hnone : (rest.length - (size - 1) + size - 1) / size = 0 :=
        Nat.div_eq_of_lt (by omega)
      have hone : (rest.length + 1 + size - 1) / size = 1 := by
        rw [show rest.length + 1 + size - 1 = rest.length + size by omega,
          Nat.add_div_right _ hsize, Nat.div_eq_of_lt hlt]
      rw [hnone, hone]
    · rw [← Nat.add_div_right _ hsize]
      congr 1
      omega

/-! ### Shares -/

variable (threads : Nat) (items : List α)

theorem chunkSize_pos {n : Nat} (h : 0 < n) : 0 < chunkSize threads n := by
  have hteam : 0 < teamSize threads n := Nat.lt_of_lt_of_le Nat.one_pos (Nat.le_max_left _ _)
  exact Nat.div_pos (by omega) hteam

theorem le_teamSize_mul_chunkSize (n : Nat) :
    n ≤ teamSize threads n * chunkSize threads n := by
  have hteam : 0 < teamSize threads n := Nat.lt_of_lt_of_le Nat.one_pos (Nat.le_max_left _ _)
  have hceil := le_smul_ceilDiv (b := n) hteam
  rwa [smul_eq_mul, Nat.ceilDiv_eq_add_pred_div] at hceil

/-- **No more workers than asked for**, and no more than items. -/
theorem length_shares_le :
    (shares threads items).length ≤ max 1 (min threads items.length) := by
  rcases Nat.eq_zero_or_pos items.length with hzero | hpos
  · rw [List.eq_nil_of_length_eq_zero hzero, shares, chunks]
    exact Nat.zero_le _
  · have hsize := chunkSize_pos threads hpos
    rw [shares, length_chunks hsize, ceilDiv_le_iff_le_smul hsize, smul_eq_mul, Nat.mul_comm]
    exact le_teamSize_mul_chunkSize threads items.length

theorem getElem?_shares {i : Nat} (h : i < (shares threads items).length) :
    (shares threads items)[i]?
      = some ((items.drop (i * chunkSize threads items.length)).take
          (chunkSize threads items.length)) := by
  have hpos : 0 < items.length := by
    refine List.length_pos_iff.mpr ?_
    rintro rfl
    rw [shares, chunks] at h
    exact Nat.not_lt_zero _ h
  have hlookup := getElem?_chunks (chunkSize_pos threads hpos) items i
  rw [← shares] at hlookup
  split at hlookup
  · exact hlookup
  · rw [List.getElem?_eq_getElem h] at hlookup
    cases hlookup

/-- The results share by share: those of one share in the order of its items, and the shares in the
order of arrival. -/
theorem run_eq_flatMap (arrival : Arrival) (f : α → β) :
    run arrival threads f items
      = (arrival.order (shares threads items).length).flatMap fun i ↦
          ((items.drop (i * chunkSize threads items.length)).take
            (chunkSize threads items.length)).map f := by
  have hlookup : ∀ i ∈ arrival.order (shares threads items).length,
      ((shares threads items).map (·.map f))[i]?
        = some (((items.drop (i * chunkSize threads items.length)).take
            (chunkSize threads items.length)).map f) := by
    intro i hi
    have hlt := List.mem_range.mp ((arrival.order_perm _).mem_iff.mp hi)
    rw [List.getElem?_map, getElem?_shares threads items hlt]
    rfl
  rw [run, List.length_map, List.filterMap_congr hlookup, List.flatMap_def]
  exact congrArg List.flatten (congrFun List.filterMap_eq_map _)

theorem run_of_threads_le_one (arrival : Arrival) (f : α → β) (h : threads ≤ 1) :
    run arrival threads f items = items.map f := by
  have hlength : (shares threads items).length ≤ 1 :=
    Nat.le_trans (length_shares_le threads items) (by omega)
  have hflatten : (shares threads items).flatten = items := flatten_chunks _ _
  match hshares : shares threads items with
  | [] =>
    have horder : arrival.order 0 = [] := List.perm_nil.mp (arrival.order_perm 0)
    rw [hshares, List.flatten_nil] at hflatten
    rw [run, hshares, ← hflatten, List.map_nil, List.length_nil, horder]
    rfl
  | [share] =>
    have horder : arrival.order 1 = [0] := List.perm_singleton.mp (arrival.order_perm 1)
    rw [hshares, List.flatten_singleton] at hflatten
    rw [run, hshares, hflatten, List.map_singleton, List.length_singleton, horder]
    exact List.append_nil _
  | _ :: _ :: _ =>
    rw [hshares, List.length_cons, List.length_cons] at hlength
    omega

end ExecState.FanOut

namespace ExecState

/-!
## A pool of workers

The results of shared work depend on an order of arrival, which `FanOut.run` takes as given. Here it
comes about: workers are taken on one after the other, those at work go on item by item and in any
turn, and a worker that is through with its share delivers its results behind those that were
delivered before (`Pool.Step`).

What no step changes is said once (`Pool.Sound`): every share has one worker, and what a worker has
done is the work on the items that it has no longer before it. So a pool that is over has delivered
the results of all shares in some order, and this order is an arrival. Conversely each arrival is
the outcome of a run, in which the workers go through their shares one at a time
(`Pool.yields_iff`). Runs cannot go on forever, because every step does a part of what is left to do
(`Pool.Step.left_eq`), and they come to a halt only when the pool is over.
-/

variable {α β : Type}

/-! ### Workers -/

/-- A worker in the middle of its share. -/
structure Worker (α β : Type) where
  /-- The number of the share. -/
  share : Nat
  /-- The results so far. -/
  results : List β
  /-- The items that are left. -/
  rest : List α

namespace Worker

/-- What becomes of a worker that goes through with its share. -/
def finished (f : α → β) (w : Worker α β) : Worker α β := ⟨w.share, w.results ++ w.rest.map f, []⟩

/-- What one step may make of a worker: nothing, or it takes up the next item. -/
inductive Becomes (f : α → β) : Worker α β → Worker α β → Prop
  | idle (w : Worker α β) : Becomes f w w
  | work (i : Nat) (results : List β) (x : α) (rest : List α) :
      Becomes f ⟨i, results, x :: rest⟩ ⟨i, results ++ [f x], rest⟩

/-- Whether a worker has done the work on the part of its share that it has no longer before it. -/
def IsSound (f : α → β) (shares : List (List α)) (w : Worker α β) : Prop :=
  ∃ done, shares[w.share]? = some (done ++ w.rest) ∧ w.results = done.map f

variable {f : α → β} {shares : List (List α)} {w w' : Worker α β}

theorem Becomes.share_eq (h : Becomes f w w') : w'.share = w.share := by
  cases h <;> rfl

theorem Becomes.isSound (h : Becomes f w w') (hw : w.IsSound f shares) : w'.IsSound f shares := by
  cases h with
  | idle => exact hw
  | work i results x rest =>
    obtain ⟨done, hshare, hresults⟩ := hw
    refine ⟨done ++ [x], ?_, ?_⟩
    · rwa [List.append_assoc, List.singleton_append]
    · rw [List.map_append, List.map_singleton, ← hresults]

end Worker

/-! ### Pools -/

/-- Workers that are not taken on yet, workers at work and workers that delivered their results, the
first one first. -/
structure Pool (α β : Type) where
  waiting : List (Worker α β)
  working : List (Worker α β)
  arrived : List (Worker α β)

namespace Pool

open Relation (ReflTransGen)

/-- The pool before the first worker is taken on: there is one for each share. -/
def start (shares : List (List α)) : Pool α β :=
  ⟨shares.zipIdx.map fun s ↦ ⟨s.2, [], s.1⟩, [], []⟩

/-- One step of any of the workers. -/
inductive Step (f : α → β) : Pool α β → Pool α β → Prop
  /-- The next worker is taken on. -/
  | hire (w : Worker α β) (waiting working arrived : List (Worker α β)) :
      Step f ⟨w :: waiting, working, arrived⟩ ⟨waiting, working ++ [w], arrived⟩
  /-- A worker takes up the next item of its share. -/
  | work (i : Nat) (results : List β) (x : α) (rest : List α)
      (waiting before after arrived : List (Worker α β)) :
      Step f ⟨waiting, before ++ ⟨i, results, x :: rest⟩ :: after, arrived⟩
        ⟨waiting, before ++ ⟨i, results ++ [f x], rest⟩ :: after, arrived⟩
  /-- A worker without further items delivers its results. -/
  | deliver (i : Nat) (results : List β) (waiting before after arrived : List (Worker α β)) :
      Step f ⟨waiting, before ++ ⟨i, results, []⟩ :: after, arrived⟩
        ⟨waiting, before ++ after, arrived ++ [⟨i, results, []⟩]⟩

def workers (p : Pool α β) : List (Worker α β) := p.waiting ++ (p.working ++ p.arrived)

/-- Whether all results are delivered. -/
def IsOver (p : Pool α β) : Prop := p.waiting = [] ∧ p.working = []

/-- The results in the order in which they were delivered. -/
def collected (p : Pool α β) : List β := p.arrived.flatMap (·.results)

/-- Whether a run on these shares can end with these results. -/
def Yields (f : α → β) (shares : List (List α)) (results : List β) : Prop :=
  ∃ p, ReflTransGen (Step f) (start shares) p ∧ p.IsOver ∧ p.collected = results

variable {f : α → β} {shares : List (List α)} {p q : Pool α β}

/-! ### What no step changes -/

theorem perm_workers (w : Worker α β) (waiting before after arrived : List (Worker α β)) :
    (workers ⟨waiting, before ++ w :: after, arrived⟩).Perm
      (w :: workers ⟨waiting, before ++ after, arrived⟩) := by
  simp only [workers, List.append_assoc, List.cons_append]
  rw [← List.append_assoc, ← List.append_assoc waiting]
  exact List.perm_middle

/-- **One step is a step of one worker.** -/
theorem Step.exists_becomes (h : Step f p q) :
    ∃ w w' others, p.workers.Perm (w :: others) ∧ q.workers.Perm (w' :: others) ∧
      w.Becomes f w' := by
  cases h with
  | hire w waiting working arrived =>
    have hq := perm_workers w waiting working [] arrived
    rw [List.append_nil] at hq
    exact ⟨w, w, _, List.Perm.refl _, hq, .idle w⟩
  | work i results x rest waiting before after arrived =>
    exact ⟨_, _, _, perm_workers _ _ _ _ _, perm_workers _ _ _ _ _, .work i results x rest⟩
  | deliver i results waiting before after arrived =>
    refine ⟨_, _, _, perm_workers _ _ _ _ _, ?_, .idle _⟩
    simp only [workers, ← List.append_assoc]
    exact List.perm_append_singleton _ _

/-- What holds of a pool at any time. -/
structure Sound (f : α → β) (shares : List (List α)) (p : Pool α β) : Prop where
  /-- Every share has one worker. -/
  numbers : (p.workers.map Worker.share).Perm (List.range shares.length)
  isSound : ∀ w ∈ p.workers, w.IsSound f shares
  delivered : ∀ w ∈ p.arrived, w.rest = []

theorem sound_start (f : α → β) (shares : List (List α)) :
    (start shares : Pool α β).Sound f shares := by
  have hworkers : (start shares : Pool α β).workers
      = shares.zipIdx.map fun s ↦ ⟨s.2, [], s.1⟩ := List.append_nil _
  refine ⟨?_, ?_, nofun⟩
  · rw [hworkers, List.map_map, List.range_eq_range', ← List.zipIdx_map_snd 0 shares]
    exact List.Perm.refl _
  · intro w hw
    rw [hworkers, List.mem_map] at hw
    obtain ⟨⟨share, i⟩, hmem, rfl⟩ := hw
    exact ⟨[], List.mk_mem_zipIdx_iff_getElem?.mp hmem, rfl⟩

theorem Sound.step (hp : p.Sound f shares) (h : Step f p q) : q.Sound f shares := by
  obtain ⟨w, w', others, hpw, hqw, hbecomes⟩ := h.exists_becomes
  refine ⟨?_, ?_, ?_⟩
  · have hnumbers : (q.workers.map Worker.share).Perm (p.workers.map Worker.share) := by
      refine (hqw.map _).trans ((hpw.map _).trans ?_).symm
      rw [List.map_cons, List.map_cons, hbecomes.share_eq]
    exact hnumbers.trans hp.numbers
  · intro v hv
    rcases List.mem_cons.mp (hqw.mem_iff.mp hv) with rfl | hv
    · exact hbecomes.isSound (hp.isSound w (hpw.mem_iff.mpr List.mem_cons_self))
    · exact hp.isSound v (hpw.mem_iff.mpr (List.mem_cons_of_mem w hv))
  · cases h with
    | hire | work => exact hp.delivered
    | deliver i results waiting before after arrived =>
      intro v hv
      rcases List.mem_append.mp hv with hv | hv
      · exact hp.delivered v hv
      · rw [List.mem_singleton.mp hv]

theorem Sound.run (hp : p.Sound f shares) (h : ReflTransGen (Step f) p q) : q.Sound f shares := by
  induction h with
  | refl => exact hp
  | tail _ hstep ih => exact ih.step hstep

theorem Sound.collected_eq (hp : p.Sound f shares) (hover : p.IsOver) :
    p.collected = ((p.arrived.map Worker.share).filterMap
      ((shares.map (·.map f))[·]?)).flatten := by
  have hlookup : ∀ w ∈ p.arrived, (shares.map (·.map f))[w.share]? = some w.results := by
    intro w hw
    have hmem : w ∈ p.workers := by
      rw [workers, hover.1, hover.2]
      exact hw
    obtain ⟨done, hshare, hresults⟩ := hp.isSound w hmem
    rw [List.getElem?_map, hshare, hp.delivered w hw, List.append_nil, hresults]
    rfl
  rw [collected, List.flatMap_def, List.filterMap_map]
  refine congrArg List.flatten (Eq.trans ?_ (List.filterMap_congr hlookup).symm)
  exact (congrFun List.filterMap_eq_map _).symm

/-! ### Every order comes about -/

theorem run_hire (waiting working arrived : List (Worker α β)) :
    ReflTransGen (Step f) ⟨waiting, working, arrived⟩ ⟨[], working ++ waiting, arrived⟩ := by
  induction waiting generalizing working with
  | nil => rw [List.append_nil]
  | cons w waiting ih =>
    have hrest := ih (working ++ [w])
    rw [List.append_assoc, List.singleton_append] at hrest
    exact .head (.hire w waiting working arrived) hrest

theorem run_finish (w : Worker α β) (before after arrived : List (Worker α β)) :
    ReflTransGen (Step f) ⟨[], before ++ w :: after, arrived⟩
      ⟨[], before ++ after, arrived ++ [w.finished f]⟩ := by
  obtain ⟨i, results, rest⟩ := w
  induction rest generalizing results with
  | nil =>
    rw [Worker.finished, List.map_nil, List.append_nil]
    exact .single (.deliver i results [] before after arrived)
  | cons x rest ih =>
    have hrest := ih (results ++ [f x])
    rw [Worker.finished, List.append_assoc, List.singleton_append, ← List.map_cons] at hrest
    exact .head (.work i results x rest [] before after arrived) hrest

/-- Workers may go through with their shares one after the other, in any order. -/
theorem run_inOrder {order working : List (Worker α β)} (h : order.Perm working)
    (arrived : List (Worker α β)) :
    ReflTransGen (Step f) ⟨[], working, arrived⟩
      ⟨[], [], arrived ++ order.map (Worker.finished f)⟩ := by
  induction order generalizing working arrived with
  | nil => rw [List.nil_perm.mp h, List.map_nil, List.append_nil]
  | cons w order ih =>
    obtain ⟨before, after, rfl⟩ := List.append_of_mem (h.mem_iff.mp List.mem_cons_self)
    have horder : order.Perm (before ++ after) := (h.trans List.perm_middle).cons_inv
    have hrest := ih horder (arrived ++ [w.finished f])
    rw [List.append_assoc, List.singleton_append, ← List.map_cons] at hrest
    exact (run_finish w before after arrived).trans hrest

theorem getElem?_waiting_start (shares : List (List α)) (i : Nat) :
    (start shares : Pool α β).waiting[i]? = shares[i]?.map fun share ↦ ⟨i, [], share⟩ := by
  rw [start, List.getElem?_map, List.getElem?_zipIdx, Option.map_map, Nat.zero_add]
  rfl

theorem yields_of_order {order : List Nat} (h : order.Perm (List.range shares.length)) :
    Yields f shares ((order.filterMap ((shares.map (·.map f))[·]?)).flatten) := by
  have hlength : (start shares : Pool α β).waiting.length = shares.length := by
    rw [start, List.length_map, List.length_zipIdx]
  have hworkers : (order.filterMap ((start shares : Pool α β).waiting[·]?)).Perm
      (start shares : Pool α β).waiting := by
    have hall := h.filterMap ((start shares : Pool α β).waiting[·]?)
    rwa [← hlength, FanOut.filterMap_getElem?_range] at hall
  refine ⟨_, (run_hire _ [] []).trans (run_inOrder hworkers []), ⟨rfl, rfl⟩, ?_⟩
  rw [collected, List.nil_append, List.flatMap_def, List.map_map, List.map_filterMap]
  refine congrArg List.flatten (List.filterMap_congr fun i _ ↦ ?_)
  rw [getElem?_waiting_start, List.getElem?_map, Option.map_map]
  rfl

/-! ### Runs end -/

/-- The number of steps that are left: one to take a worker on, one for each item and one to deliver
the results. -/
def left (p : Pool α β) : Nat :=
  (p.waiting.map fun w ↦ w.rest.length + 2).sum + (p.working.map fun w ↦ w.rest.length + 1).sum

/-- **Every step is one of those that were left.** -/
theorem Step.left_eq (h : Step f p q) : p.left = q.left + 1 := by
  cases h <;>
    · simp only [left, List.map_append, List.map_cons, List.map_nil, List.sum_append,
        List.sum_cons, List.sum_nil, List.length_cons, List.length_nil]
      omega

theorem isOver_of_forall_not_step (h : ∀ q, ¬ Step f p q) : p.IsOver := by
  obtain ⟨waiting, working, arrived⟩ := p
  cases waiting with
  | cons w waiting => exact absurd (.hire w waiting working arrived) (h _)
  | nil =>
    cases working with
    | nil => exact ⟨rfl, rfl⟩
    | cons w working =>
      obtain ⟨i, results, rest⟩ := w
      cases rest with
      | nil => exact absurd (.deliver i results [] [] working arrived) (h _)
      | cons x rest => exact absurd (.work i results x rest [] [] working arrived) (h _)

/-- No run goes on forever. -/
theorem wellFounded_step (f : α → β) : WellFounded fun q p : Pool α β ↦ Step f p q :=
  Subrelation.wf (fun h ↦ Nat.lt_of_lt_of_eq (Nat.lt_succ_self _) h.left_eq.symm)
    (measure left).wf

end Pool

/-! ### Shared work -/

/-- The arrival in which a team of the size of an order comes in this order, and any other team in
turn. -/
def Arrival.ofOrder {n : Nat} {order : List Nat} (h : order.Perm (List.range n)) : Arrival where
  order team := if team = n then order else List.range team
  order_perm team := by
    split
    · rename_i hteam
      rwa [hteam]
    · exact List.Perm.refl _

namespace FanOut

/-- **The runs of a pool are the arrivals.** -/
theorem yields_iff (threads : Nat) (f : α → β) (items : List α) (results : List β) :
    Pool.Yields f (shares threads items) results
      ↔ ∃ arrival, results = run arrival threads f items := by
  constructor
  · rintro ⟨p, hrun, hover, rfl⟩
    have hsound := (Pool.sound_start f (shares threads items)).run hrun
    have horder := hsound.numbers
    rw [Pool.workers, hover.1, hover.2, List.nil_append, List.nil_append] at horder
    refine ⟨.ofOrder horder, ?_⟩
    rw [hsound.collected_eq hover, run, List.length_map, Arrival.ofOrder]
    dsimp only
    rw [if_pos rfl]
  · rintro ⟨arrival, rfl⟩
    rw [run, List.length_map]
    exact Pool.yields_of_order (arrival.order_perm _)

/-- **Shared work is done once for each item.** The runs of a pool of workers end, and what they
yield are the results for the orders of arrival. Of the shares there is one for every worker; no
share is empty, together they are the items, and there are no more of them than workers asked for,
of which there is at least one and at most one for each item. Whatever the order of arrival, the
results are those of all items: the results of a share are in the order of its items, and the shares
come in the order of arrival. A single worker, or none, leaves all results in order. -/
theorem run_shared (threads : Nat) (f : α → β) (items : List α) :
    (WellFounded (fun q p : Pool α β ↦ Pool.Step f p q) ∧
      (∀ p : Pool α β, (∀ q, ¬ Pool.Step f p q) → p.IsOver) ∧
      ∀ results, Pool.Yields f (shares threads items) results
        ↔ ∃ arrival, results = run arrival threads f items) ∧
    ((shares threads items).length ≤ max 1 (min threads items.length) ∧
      (∀ share ∈ shares threads items, share ≠ []) ∧ (shares threads items).flatten = items) ∧
    ∀ arrival, (run arrival threads f items).Perm (items.map f) ∧
      run arrival threads f items
        = (arrival.order (shares threads items).length).flatMap (fun i ↦
            ((items.drop (i * chunkSize threads items.length)).take
              (chunkSize threads items.length)).map f) ∧
      (threads ≤ 1 → run arrival threads f items = items.map f) := by
  refine ⟨⟨Pool.wellFounded_step f, fun p ↦ Pool.isOver_of_forall_not_step,
    yields_iff threads f items⟩, ?_, fun arrival ↦ ⟨perm_run arrival threads f items, ?_, ?_⟩⟩
  · exact ⟨length_shares_le threads items, fun _ ↦ ne_nil_of_mem_chunks, flatten_chunks _ _⟩
  · exact run_eq_flatMap threads items arrival f
  · exact run_of_threads_le_one threads items arrival f

/-- Five items among four workers, of whom three are needed, and the same items for one worker. -/
theorem run_shared_uneven :
    (shares 4 [1, 2, 3, 4, 5]).length = 3 ∧
    run Arrival.reversed 4 (· * 2) [1, 2, 3, 4, 5] = [10, 6, 8, 2, 4] ∧
    1 ≤ 1 ∧ run Arrival.reversed 1 (· * 2) [1, 2, 3, 4, 5] = [1, 2, 3, 4, 5].map (· * 2) := by
  have hlength : (shares 4 [1, 2, 3, 4, 5]).length = 3 := by
    simp [shares, chunks, chunkSize, teamSize]
  obtain ⟨-, -, hmany⟩ := run_shared 4 (· * 2) [1, 2, 3, 4, 5]
  obtain ⟨-, -, hone⟩ := run_shared 1 (· * 2) [1, 2, 3, 4, 5]
  refine ⟨hlength, ?_, Nat.le_refl 1, (hone Arrival.reversed).2.2 (Nat.le_refl 1)⟩
  rw [(hmany Arrival.reversed).2.1, hlength]
  rfl

end FanOut

end ExecState
