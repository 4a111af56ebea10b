import Mathlib.Data.List.Find
import ZeroCopyProxy.Verified.KeyedList
import ZeroCopyProxy.Ports.ProxyDescriptors

/-!
# Deletions by number

Between the main thread's writing to the lists and its reading back the workers
delete from both, by number: a worker whose `src_fd` has been given out again
deletes what comes first under that number, be it its own entry or not.

A worker deletes at most once from each list (`wlp_proxyConn_inTurn`), so that
each list has an entry for every deletion still to come (`Lists`), and none of
these takes the last entry before its own worker does.
-/

namespace ZeroCopyProxy.Ports.ProxyDeletions

open scoped List
open ZeroCopyProxy.Verified.Resumption
open ZeroCopyProxy.Verified.Liberal
open ZeroCopyProxy.Verified.KeyedList
open ZeroCopyProxy.Ports.Posix
open ZeroCopyProxy.Ports.ProxyConn
open ZeroCopyProxy.Ports.ProxySystem
open ZeroCopyProxy.Ports.ProxyDescriptors

/-! ## A worker's deletions -/

/-- How far a worker is in `proxy_delete_src_info`. -/
inductive Phase where
  | whole
  /-- behind `dlist_int_del_node_by_data` -/
  | unlisted
  /-- with the work data it has found -/
  | found (work : Nat)
  /-- behind `dlist_ptr_del_node_by_data` -/
  | freed
  deriving DecidableEq

/-- The phase behind an answered call. -/
def Phase.after (p : Phase) : ConnCall → Answer → Phase
  | .delFd _, _ => .unlisted
  | .findWork _, r => if r.ret < 0 then p else .found r.ret.toNat
  | .delWork _, _ => .freed
  | _, _ => p

/-- Every answer moves the phase. -/
def Moves (p : Phase) (_ : JpoolWorkData) (op : ConnCall) (r : Answer) (p' : Phase) : Prop :=
  p' = p.after op r

/-- The worker deletes its own number, searches for it, and deletes what it
has found, each once and in this order. -/
def InTurn (srcFd : Int) (p : Phase) (_ : JpoolWorkData) : ConnCall → Prop
  | .delFd fd => p = .whole ∧ fd = srcFd
  | .findWork fd => p = .unlisted ∧ fd = srcFd
  | .delWork work => p = .found work
  | _ => True

/-- At the end of a stage that the loop may follow nothing has been deleted. -/
def Ended (srcFd : Int) (p : Phase) (d : JpoolWorkData) (after : Stage) : Prop :=
  d.srcFd = srcFd ∧ (after = .setUp ∨ after = .loops → p = .whole)

section Worker

variable {srcFd : Int} {p : Phase} {d : JpoolWorkData}

/-- Nothing has been deleted since. -/
def Still (srcFd : Int) (p p' : Phase) (d : JpoolWorkData) : Prop := p' = p ∧ d.srcFd = srcFd

theorem keeps_processData (fd : Int) :
    Keeps Moves (InTurn srcFd) (Still srcFd p) (processData fd) := by
  intro p' d h
  unfold processData
  rw [wlp_zoom, wlp_hoist]
  apply wlp_of_kept (I := fun q => q = p)
  · rintro _ _ op _ _ rfl rfl
    rfl
  · exact fun _ _ _ _ => True.intro
  · exact fun _ t _ hq => ⟨hq, (d.srcFd_setTransc (d.dirOf fd) t).trans h.2⟩
  · exact h.1

theorem keeps_connEvents (fds : List Int) :
    Keeps Moves (InTurn srcFd) (Still srcFd p) (connEvents fds) := by
  induction fds with
  | nil => exact keeps_pure ()
  | cons fd fds ih =>
      refine Keeps.bind ?_ fun _ => ih
      refine keeps_state_bind fun d => ?_
      exact keeps_ite (keeps_processData _) (keeps_ite (keeps_processData _) (keeps_pure _))

/-- A system call deletes nothing. -/
theorem keeps_sys (op : SysCall) :
    Keeps Moves (InTurn srcFd) (Still srcFd p)
      (Prog.call (.sys op) : ConnProg Answer) := by
  apply keeps_call
  · exact fun _ _ _ => True.intro
  · rintro p' d r _ h rfl
    exact h

theorem keeps_proxyCheckFd (fd : Int) :
    Keeps Moves (InTurn srcFd) (Still srcFd p) (proxyCheckFd fd) :=
  Keeps.bind (keeps_sys _) fun _ => keeps_ite (keeps_pure _) (keeps_pure _)

theorem keeps_connWait : Keeps Moves (InTurn srcFd) (Still srcFd p) connWait := by
  refine Keeps.bind (keeps_sys _) fun r => ?_
  refine keeps_ite (keeps_pure _) (keeps_ite (keeps_pure _) ?_)
  exact Keeps.bind (keeps_connEvents _) fun _ => keeps_pure _

theorem keeps_connSetUp : Keeps Moves (InTurn srcFd) (Still srcFd p) connSetUp := by
  have hput : ∀ f : JpoolWorkData → JpoolWorkData, (∀ d, (f d).srcFd = d.srcFd) →
      ∀ p' d, Still srcFd p p' d → Still srcFd p p' (f d) :=
    fun f hf p' d h => ⟨h.1, (hf d).trans h.2⟩
  have hcall : ∀ op, (∀ r, p.after op r = p) → (∀ d, InTurn srcFd p d op) →
      Keeps Moves (InTurn srcFd) (Still srcFd p) (Prog.call op : ConnProg Answer) := by
    intro op hafter hturn
    apply keeps_call
    · rintro _ d ⟨rfl, _⟩
      exact hturn d
    · rintro _ d r _ ⟨rfl, hd⟩ rfl
      exact ⟨hafter r, hd⟩
  have hopen : ∀ put : Pipe → JpoolWorkData → JpoolWorkData,
      (∀ q d, (put q d).srcFd = d.srcFd) →
      Keeps Moves (InTurn srcFd) (Still srcFd p) (pipeOpen put) := by
    intro put hsrc
    refine Keeps.bind (hcall _ (fun _ => rfl) fun _ => True.intro) fun r => ?_
    exact keeps_ite (keeps_pure _) (keeps_update_bind (hput _ (hsrc _)) (keeps_pure _))
  refine keeps_update_bind (hput _ fun _ => rfl) (keeps_update_bind (hput _ fun _ => rfl) ?_)
  refine Keeps.bind (hopen _ fun _ _ => rfl) fun rv => keeps_ite (keeps_pure _) ?_
  refine Keeps.bind (hopen _ fun _ _ => rfl) fun rv => keeps_ite (keeps_pure _) ?_
  refine keeps_state_bind fun d => ?_
  refine Keeps.bind (hcall _ (fun _ => rfl) fun _ => True.intro) fun r => ?_
  exact keeps_ite (keeps_pure _) (keeps_pure _)

/-- Behind the loop nothing is deleted any more. -/
theorem ended_of_behind {after : Stage} (hd : d.srcFd = srcFd)
    (h : after ≠ .setUp ∧ after ≠ .loops) : Ended srcFd p d after :=
  ⟨hd, fun hloop => (hloop.elim h.1 h.2).elim⟩

/-- The end of a connection deletes once from each list, at most. -/
theorem wlp_connEnded_inTurn (h : Still srcFd .whole p d) :
    wlp Moves (InTurn srcFd) (Ended srcFd) (connEnded srcFd d) p := by
  obtain ⟨rfl, hd⟩ := h
  have hend : ∀ p', Ended srcFd p' d .closes := fun _ => ended_of_behind hd (by decide)
  unfold connEnded proxyDeleteSrcInfo
  simp only [wlp_bind, wlp_prog_call, wlp_ite, wlp_pure]
  refine ⟨⟨rfl, rfl⟩, fun r p₁ hp₁ => ⟨fun _ => hend _, fun _ => ?_⟩⟩
  refine ⟨⟨hp₁, rfl⟩, fun found p₂ hp₂ => ⟨fun _ => hend _, fun hret => ?_⟩⟩
  refine ⟨?_, fun _ _ _ => hend _⟩
  rw [InTurn, hp₂, Phase.after, if_neg hret]

theorem wlp_connRound_inTurn (h : Still srcFd .whole p d) :
    wlp Moves (InTurn srcFd) (Ended srcFd) (connRound d) p := by
  unfold connRound
  simp only [wlp_bind, wlp_state]
  rw [h.2]
  refine wlp_post (fun p₁ d₁ rv₁ h₁ => ?_) (keeps_proxyCheckFd srcFd p d h)
  rw [wlp_ite]
  refine ⟨fun _ => wlp_connEnded_inTurn h₁, fun _ => ?_⟩
  rw [wlp_bind]
  refine wlp_post (fun p₂ d₂ rv₂ h₂ => ?_) (keeps_proxyCheckFd d.dstFd p₁ d₁ h₁)
  rw [wlp_ite]
  refine ⟨fun _ => wlp_connEnded_inTurn h₂, fun _ => ?_⟩
  exact wlp_post (fun _ _ _ h₃ => ⟨h₃.2, fun _ => h₃.1⟩) (keeps_connWait p₂ d₂ h₂)

/-- Every stage deletes in turn, what is behind the loop nothing. -/
theorem wlp_proxyConn_inTurn (stage : Stage) (hd : d.srcFd = srcFd)
    (hp : stage = .setUp ∨ stage = .loops → p = .whole) :
    wlp Moves (InTurn srcFd) (Ended srcFd) (proxyConn stage d) p := by
  cases stage with
  | setUp =>
      have h : Still srcFd .whole p d := ⟨hp (.inl rfl), hd⟩
      exact wlp_post (fun _ _ _ h' => ⟨h'.2, fun _ => h'.1⟩) (keeps_connSetUp p d h)
  | loops => exact wlp_connRound_inTurn ⟨hp (.inr rfl), hd⟩
  | closes =>
      unfold proxyConn connTearDown pipeClose
      simp only [wlp_bind, wlp_state, wlp_prog_call, wlp_pure]
      exact ⟨True.intro, fun _ _ _ => ⟨True.intro, fun _ _ _ => ⟨True.intro, fun _ _ _ =>
        ⟨True.intro, fun _ _ _ => ended_of_behind hd (by decide)⟩⟩⟩⟩
  | returned => exact ended_of_behind hd (by decide)

end Worker

/-! ## The lists -/

/-- The `src_fd` of a work data. -/
def srcFdOf (m : Shared) (w : Nat) : Int := m.srcFds[w]?.getD 0

/-- The number that is in `fd_list` and not yet in a work data. -/
def listedFd : MainPc → Option Int
  | .listed fd _ => some fd
  | _ => none

/-- `fd_list` has a number for each of the work data `owing`, whose workers
have not deleted it, and `work_list` a node for each of `holding`, whose
workers have not deleted one; the main thread's entries are the last. -/
structure Lists (owing holding : List Nat) (pc : MainPc) (m : Shared) : Prop where
  owed : owing.map (srcFdOf m) ++ (listedFd pc).toList <+~ m.fdList
  held : holding.map (srcFdOf m) <+~ m.workList.map (srcFdOf m)
  nodup : m.workList.Nodup
  owingLt : ∀ w ∈ owing, w < m.nodes.length
  holdingLt : ∀ w ∈ holding, w < m.nodes.length
  workLt : ∀ w ∈ m.workList, w < m.nodes.length
  listed : ∀ fd conn, pc = .listed fd conn → m.fdList.getLast? = some fd
  created : ∀ w, pc = .created w →
    w + 1 = m.nodes.length ∧ m.workList.getLast? = some w ∧ w ∈ owing ∧ w ∈ holding

/-- What a worker in this phase has still to delete. -/
structure Owes (owing holding : List Nat) (pc : MainPc) (m : Shared) (w : Nat) (p : Phase) :
    Prop where
  owing : p = .whole → w ∈ owing
  holding : p ≠ .freed → w ∈ holding
  found : ∀ x, p = .found x → srcFdOf m x = srcFdOf m w ∧ x < m.nodes.length ∧ pc ≠ .created x

section Lists

variable {owing holding : List Nat} {pc : MainPc} {m m' : Shared} {w : Nat} {p : Phase}

theorem srcFdOf_congr (h : m'.nodes = m.nodes) : srcFdOf m' = srcFdOf m := by
  unfold srcFdOf Shared.srcFds
  rw [h]

/-- The lists and the work data are all that matters. -/
theorem Lists.congr (h : Lists owing holding pc m) (hnodes : m'.nodes = m.nodes)
    (hfds : m'.fdList = m.fdList) (hworks : m'.workList = m.workList) :
    Lists owing holding pc m' where
  owed := by
    rw [srcFdOf_congr hnodes, hfds]
    exact h.owed
  held := by
    rw [srcFdOf_congr hnodes, hworks]
    exact h.held
  nodup := by
    rw [hworks]
    exact h.nodup
  owingLt := by
    rw [hnodes]
    exact h.owingLt
  holdingLt := by
    rw [hnodes]
    exact h.holdingLt
  workLt := by
    rw [hnodes, hworks]
    exact h.workLt
  listed := by
    rw [hfds]
    exact h.listed
  created := by
    rw [hnodes, hworks]
    exact h.created

theorem srcFdOf_eq_iff {fd : Int} (hw : w < m.nodes.length) :
    m.srcFds[w]? = some fd ↔ srcFdOf m w = fd := by
  have hlt : w < m.srcFds.length := by rwa [Shared.srcFds, List.length_map]
  rw [srcFdOf, List.getElem?_eq_getElem hlt]
  exact Option.some_inj

/-- A search goes by the `src_fd`. -/
theorem Lists.findWork_eq (h : Lists owing holding pc m) (fd : Int) :
    m.findWork fd = m.workList.find? fun w => srcFdOf m w = fd := by
  refine List.find?_congr fun w hw => ?_
  rw [decide_eq_decide.2 (srcFdOf_eq_iff (h.workLt w hw))]

/-- A search finds the node of a worker that has still to delete one, never the
last one that another worker has to delete. -/
theorem Lists.ne_created (h : Lists owing holding pc m) {fd : Int} {x v : Nat}
    (hx : m.findWork fd = some x) (hw : w ∈ holding) (hfd : srcFdOf m w = fd)
    (hne : ∀ v, pc = .created v → w ≠ v) (hv : pc = .created v) : x ≠ v := by
  obtain ⟨-, hlast, -, hheld⟩ := h.created v hv
  rw [h.findWork_eq] at hx
  refine ne_last_of_find hlast h.nodup ?_ hx
  rw [← hfd]
  exact (pair_subperm hw hheld (hne v hv)).trans h.held

/-- The lists and the work data are all that matters to a worker, too. -/
theorem Owes.congr (h : Owes owing holding pc m w p) (hnodes : m'.nodes = m.nodes) :
    Owes owing holding pc m' w p where
  owing := h.owing
  holding := h.holding
  found x hx := by
    rw [srcFdOf_congr hnodes, hnodes]
    exact h.found x hx

/-- Neither does it matter where the main thread is, unless it has just made
work data. -/
theorem Owes.moves {pc' : MainPc} (h : Owes owing holding pc m w p)
    (hpc : ∀ v, pc' ≠ .created v) : Owes owing holding pc' m w p where
  owing := h.owing
  holding := h.holding
  found x hx := by
    obtain ⟨hsrc, hlt, -⟩ := h.found x hx
    exact ⟨hsrc, hlt, hpc x⟩

/-- Another worker's deletions do not matter to this one. -/
theorem Owes.mono {owing' holding' : List Nat} (h : Owes owing holding pc m w p)
    (hnodes : m'.nodes = m.nodes) (howing : w ∈ owing → w ∈ owing')
    (hholding : w ∈ holding → w ∈ holding') : Owes owing' holding' pc m' w p where
  owing hp := howing (h.owing hp)
  holding hp := hholding (h.holding hp)
  found := (h.congr hnodes).found

theorem owes_unlisted (h : w ∈ holding) : Owes owing holding pc m w .unlisted :=
  ⟨by simp, fun _ => h, by simp⟩

theorem owes_freed : Owes owing holding pc m w .freed := ⟨by simp, by simp, by simp⟩

/-- A worker's number leaves `fd_list`. -/
theorem Lists.unlists (h : Lists owing holding pc m) (hw : w ∈ owing)
    (hne : ∀ v, pc = .created v → w ≠ v) :
    Lists (owing.erase w) holding pc { m with fdList := m.fdList.erase (srcFdOf m w) } := by
  have hperm : owing.map (srcFdOf m) ++ (listedFd pc).toList <+~ m.fdList := h.owed
  have hfront : srcFdOf m w :: ((owing.erase w).map (srcFdOf m) ++ (listedFd pc).toList) <+~
      m.fdList :=
    (((perm_map_erase hw).append_right _).symm.subperm).trans hperm
  constructor
  case owed => exact subperm_erase hfront
  case held => exact h.held
  case nodup => exact h.nodup
  case owingLt => exact fun x hx => h.owingLt x (List.mem_of_mem_erase hx)
  case holdingLt => exact h.holdingLt
  case workLt => exact h.workLt
  case listed =>
    intro fd conn hpc
    refine getLast?_erase_owed (h.listed fd conn hpc) (List.Subperm.trans ?_ hfront)
    rw [hpc, listedFd, Option.toList_some]
    exact (List.subperm_cons _).2 (List.sublist_append_right _ _).subperm
  case created =>
    intro v hpc
    obtain ⟨hlen, hlast, hmem, hheld⟩ := h.created v hpc
    exact ⟨hlen, hlast, (List.mem_erase_of_ne (hne v hpc).symm).2 hmem, hheld⟩

/-- A node leaves `work_list`, for a worker with the same `src_fd`. -/
theorem Lists.frees (h : Lists owing holding pc m) {x : Nat} (hw : w ∈ holding)
    (hx : x ∈ m.workList) (hsrc : srcFdOf m x = srcFdOf m w) (hxne : pc ≠ .created x)
    (hne : ∀ v, pc = .created v → w ≠ v) :
    Lists owing (holding.erase w) pc (m.freeWork x) := by
  constructor
  case owed => exact h.owed
  case held =>
    show (holding.erase w).map (srcFdOf m) <+~ (m.workList.erase x).map (srcFdOf m)
    refine subperm_erase_entry hx ?_
    rw [hsrc]
    exact (perm_map_erase hw).symm.subperm.trans h.held
  case nodup => exact h.nodup.erase x
  case owingLt => exact h.owingLt
  case holdingLt => exact fun y hy => h.holdingLt y (List.mem_of_mem_erase hy)
  case workLt => exact fun y hy => h.workLt y (List.mem_of_mem_erase hy)
  case listed => exact h.listed
  case created =>
    intro v hpc
    obtain ⟨hlen, hlast, hmem, hheld⟩ := h.created v hpc
    refine ⟨hlen, ?_, hmem, (List.mem_erase_of_ne (hne v hpc).symm).2 hheld⟩
    exact getLast?_erase hlast fun heq => hxne (heq ▸ hpc)

/-- What an answer leaves a worker to delete, if nothing has left the lists. -/
theorem Owes.keeps (h : Owes owing holding pc m w p) (hl : Lists owing holding pc m)
    {op : ConnCall} {r : Answer} {d : JpoolWorkData} (hturn : InTurn (srcFdOf m w) p d op)
    (hne : ∀ v, pc = .created v → w ≠ v)
    (hfind : ∀ fd, op = .findWork fd → 0 ≤ r.ret → m.findWork fd = some r.ret.toNat) :
    Owes owing holding pc m w (p.after op r) := by
  cases op with
  | sys | pipe | epollAdd => exact h
  | delFd fd =>
      obtain ⟨rfl, -⟩ := hturn
      exact owes_unlisted (h.holding (by simp))
  | delWork x => exact owes_freed
  | findWork fd =>
      obtain ⟨rfl, rfl⟩ := hturn
      rw [Phase.after]
      split
      · exact h
      · next hret =>
          have hheld := h.holding (by simp)
          have hfound := hfind _ rfl (Int.not_lt.1 hret)
          refine ⟨by simp, fun _ => hheld, fun x hx => ?_⟩
          obtain rfl := Phase.found.inj hx
          have hmem : r.ret.toNat ∈ m.workList := List.mem_of_find?_eq_some hfound
          have hlt := hl.workLt _ hmem
          refine ⟨(srcFdOf_eq_iff hlt).1 (Shared.srcFds_of_findWork hfound), hlt, fun hpc => ?_⟩
          exact hl.ne_created hfound hheld rfl hne hpc rfl

/-- An answered call of a worker. -/
theorem Lists.answers (hl : Lists owing holding pc m) (h : Owes owing holding pc m w p)
    {op : ConnCall} {r : Answer} {d : JpoolWorkData} (hturn : InTurn (srcFdOf m w) p d op)
    (hne : ∀ v, pc = .created v → w ≠ v) (he : m.CallEffect op r m') :
    ∃ owing' holding', Lists owing' holding' pc m' ∧
      Owes owing' holding' pc m' w (p.after op r) ∧
      ∀ v, v ≠ w → (v ∈ owing → v ∈ owing') ∧ (v ∈ holding → v ∈ holding') := by
  cases he with
  | keeps hfind => exact ⟨owing, holding, hl, h.keeps hl hturn hne hfind, fun v _ => ⟨id, id⟩⟩
  | @closes fd =>
      obtain ⟨hnodes, hfds, hworks, -⟩ := m.close_lists fd
      exact ⟨owing, holding, hl.congr hnodes hfds hworks, h.congr hnodes, fun v _ => ⟨id, id⟩⟩
  | opens => exact ⟨owing, holding, hl.congr rfl rfl rfl, h.congr rfl, fun v _ => ⟨id, id⟩⟩
  | unlists =>
      obtain ⟨rfl, rfl⟩ := hturn
      refine ⟨owing.erase w, holding, hl.unlists (h.owing rfl) hne, ?_, fun v hv => ?_⟩
      · exact owes_unlisted (h.holding (by simp))
      · exact ⟨fun hmem => (List.mem_erase_of_ne hv).2 hmem, id⟩
  | frees hx =>
      obtain rfl := hturn
      obtain ⟨hsrc, -, hxne⟩ := h.found _ rfl
      refine ⟨owing, holding.erase w, hl.frees (h.holding (by simp)) hx hsrc hxne hne,
        owes_freed, ?_⟩
      exact fun v hv => ⟨id, fun hmem => (List.mem_erase_of_ne hv).2 hmem⟩

/-- The main thread goes on, and has written nothing that it has still to read
back. -/
theorem Lists.moves {pc' : MainPc} (h : Lists owing holding pc m)
    (hlisted : ∀ fd conn, pc' ≠ .listed fd conn) (hcreated : ∀ v, pc' ≠ .created v) :
    Lists owing holding pc' m where
  owed := by
    have hnone : listedFd pc' = none := by
      cases pc' with
      | listed fd conn => exact absurd rfl (hlisted fd conn)
      | _ => rfl
    rw [hnone, Option.toList_none, List.append_nil]
    exact (List.sublist_append_left _ _).subperm.trans h.owed
  held := h.held
  nodup := h.nodup
  owingLt := h.owingLt
  holdingLt := h.holdingLt
  workLt := h.workLt
  listed fd conn hpc := absurd hpc (hlisted fd conn)
  created v hpc := absurd hpc (hcreated v)

/-- `dlist_int_add_node`. -/
theorem Lists.lists {fd : Int} {conn : Nat} (h : Lists owing holding pc m) :
    Lists owing holding (.listed fd conn) { m with fdList := m.fdList ++ [fd] } where
  owed := (List.subperm_append_right [fd]).2
    ((List.sublist_append_left _ _).subperm.trans h.owed)
  held := h.held
  nodup := h.nodup
  owingLt := h.owingLt
  holdingLt := h.holdingLt
  workLt := h.workLt
  listed := by
    rintro _ _ ⟨⟩
    exact List.getLast?_concat
  created v hpc := by cases hpc

theorem srcFds_create {garbage : JpoolWorkData} {conn : Nat} :
    (m.create garbage conn).srcFds = m.srcFds ++ [m.fdList.getLast?.getD 0] := by
  simp [Shared.srcFds, Shared.create]

/-- The `src_fd` of work data that are there. -/
theorem srcFdOf_create {garbage : JpoolWorkData} {conn : Nat} (hw : w < m.nodes.length) :
    srcFdOf (m.create garbage conn) w = srcFdOf m w := by
  have hlt : w < m.srcFds.length := by rwa [Shared.srcFds, List.length_map]
  rw [srcFdOf, srcFdOf, srcFds_create, List.getElem?_append_left hlt]

/-- The `src_fd` of the new ones. -/
theorem srcFdOf_create_self {garbage : JpoolWorkData} {conn : Nat} :
    srcFdOf (m.create garbage conn) m.nodes.length = m.fdList.getLast?.getD 0 := by
  have hlen : m.srcFds.length = m.nodes.length := List.length_map _
  rw [srcFdOf, srcFds_create, ← hlen, List.getElem?_concat_length, Option.getD_some]

theorem map_srcFdOf_create {garbage : JpoolWorkData} {conn : Nat} {ws : List Nat}
    (hws : ∀ w ∈ ws, w < m.nodes.length) :
    ws.map (srcFdOf (m.create garbage conn)) = ws.map (srcFdOf m) :=
  List.map_congr_left fun w hw => srcFdOf_create (hws w hw)

/-- `jpool_create_work_data` and `dlist_ptr_add_node`: the main thread has read
back its number. -/
theorem Lists.creates {garbage : JpoolWorkData} {fd : Int} {conn : Nat}
    (h : Lists owing holding (.listed fd conn) m) :
    Lists (owing ++ [m.nodes.length]) (holding ++ [m.nodes.length]) (.created m.nodes.length)
      (m.create garbage conn) := by
  have hlast := h.listed fd conn rfl
  have hself : srcFdOf (m.create garbage conn) m.nodes.length = fd := by
    rw [srcFdOf_create_self, hlast]
    rfl
  have hlen : (m.create garbage conn).nodes.length = m.nodes.length + 1 := by
    simp [Shared.create]
  have hlt : ∀ ws : List Nat, (∀ w ∈ ws, w < m.nodes.length) →
      ∀ w ∈ ws ++ [m.nodes.length], w < (m.create garbage conn).nodes.length := by
    intro ws hws w hw
    rw [hlen]
    rcases List.mem_append.1 hw with hw | hw
    · exact Nat.lt_succ_of_lt (hws w hw)
    · rw [List.mem_singleton.1 hw]
      exact Nat.lt_succ_self _
  constructor
  case owed =>
    rw [List.map_append, map_srcFdOf_create h.owingLt, List.map_singleton, hself]
    show _ ++ [] <+~ m.fdList
    rw [List.append_nil]
    exact h.owed
  case held =>
    show _ <+~ (m.workList ++ [m.nodes.length]).map (srcFdOf (m.create garbage conn))
    rw [List.map_append, List.map_append, map_srcFdOf_create h.holdingLt,
      map_srcFdOf_create h.workLt]
    exact (List.subperm_append_right _).2 h.held
  case nodup =>
    refine List.nodup_append.2 ⟨h.nodup, List.nodup_singleton _, ?_⟩
    intro x hx y hy heq
    have hxlt := h.workLt x hx
    rw [heq, List.mem_singleton.1 hy] at hxlt
    exact absurd hxlt (Nat.lt_irrefl _)
  case owingLt => exact hlt owing h.owingLt
  case holdingLt => exact hlt holding h.holdingLt
  case workLt => exact hlt m.workList h.workLt
  case listed =>
    rintro _ _ ⟨⟩
  case created =>
    rintro _ ⟨⟩
    exact ⟨hlen.symm, List.getLast?_concat, List.mem_concat_self, List.mem_concat_self⟩

/-- New work data are nobody's yet. -/
theorem Owes.creates {garbage : JpoolWorkData} {conn : Nat} (h : Owes owing holding pc m w p)
    (hw : w < m.nodes.length) :
    Owes (owing ++ [m.nodes.length]) (holding ++ [m.nodes.length]) (.created m.nodes.length)
      (m.create garbage conn) w p where
  owing hp := List.mem_append_left _ (h.owing hp)
  holding hp := List.mem_append_left _ (h.holding hp)
  found x hx := by
    obtain ⟨hsrc, hlt, -⟩ := h.found x hx
    refine ⟨?_, ?_, fun hpc => ?_⟩
    · rw [srcFdOf_create hlt, srcFdOf_create hw, hsrc]
    · simp only [Shared.create, List.length_append]
      exact Nat.lt_add_right _ hlt
    · cases hpc
      exact absurd hlt (Nat.lt_irrefl _)

end Lists

end ZeroCopyProxy.Ports.ProxyDeletions
