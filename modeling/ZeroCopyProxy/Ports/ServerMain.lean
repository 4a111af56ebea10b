import ZeroCopyProxy.Ports.Shutdown
import ZeroCopyProxy.Verified.FreeSlots

/-!
# The server's main loop and its descriptors

`main` calls `server_conn` again and again.  It accepts one client, makes a new
epoll handle for it and serves it until the connection ends; only then does it
accept the next one.  The handle is never closed, and a client that cannot be
served is not closed either.  So every client costs a descriptor for good, and
the number of clients a server can serve in its life is exactly the number of
descriptors it started with free, less one for the client itself
(`lifetime_iff`).

What a step does to the shutdown is a step of `Shutdown` or nothing
(`shut_reach`).
-/

namespace ZeroCopyProxy.Ports.ServerMain

open ZeroCopyProxy.Verified.FreeSlots
open ZeroCopyProxy.Verified.Transitions

/-! ## The loop -/

/-- What a descriptor is. -/
inductive Entry where
  | inherited
  | listening
  | handle
  | client
  deriving DecidableEq

/-- Where `main` is in `server_conn`, and the client it has accepted. -/
inductive ConnPc where
  | checks
  | accepts
  | unblocks (n : Nat)
  | creates (n : Nat)
  | adds (n : Nat)
  | serves (n : Nat)
  deriving DecidableEq

/-- The client that has been accepted. -/
def ConnPc.client : ConnPc → Option Nat
  | .checks | .accepts => none
  | .unblocks n | .creates n | .adds n | .serves n => some n

/-- The shutdown, the place in `server_conn`, the epoll handle in the object
and the table of descriptors; how many handles `server_conn` has made, how
many clients are open and how many were served. -/
structure State where
  shut : Shutdown.State
  pc : ConnPc
  epollHandleFd : Int
  files : Slots Entry
  made : Nat
  clients : Nat
  served : Nat

/-- `server_init` has returned this. -/
def start (epollHandleFd : Int) (files : Slots Entry) : State where
  shut := Shutdown.start
  pc := .checks
  epollHandleFd := epollHandleFd
  files := files
  made := 0
  clients := 0
  served := 0

/-- The next call of `server_conn` and its answer, a round of
`server_process_data` or its return, with or without the client closed, or
what happens to the shutdown. -/
inductive Act where
  | check (ok : Bool)
  | accept (r : Option Nat)
  | unblock (ok : Bool)
  | create (r : Option Nat)
  | add (ok : Bool)
  | round
  | serve (closed : Bool)
  | main
  | detector
  | sigint
  deriving DecidableEq

/-- A step of `main` in its loop that uses the object. -/
def State.conn (s : State) (a : Shutdown.Act) (f : State → State) : Option State :=
  (Shutdown.step s.shut a).map fun t => f { s with shut := t }

/-- A step of `main` in its loop that does not. -/
def State.alone (s : State) (s' : State) : Option State :=
  if Shutdown.Alive s.shut ∧ s.shut.main = .works then some s' else none

/-- A step of one of the threads towards the end. -/
def State.shuts (s : State) (fd : Nat) (a : Shutdown.Act) : Option State :=
  (Shutdown.step s.shut a).map fun t =>
    { s with
      shut := t
      files := if s.shut.closed < t.closed then Slots.free s.files fd else s.files }

/-- What `accept` and `epoll_create` may return: nothing, or the lowest free
descriptor below the limit. -/
def Gives (limit : Nat) (files : Slots Entry) (r : Option Nat) : Prop :=
  ∀ n ∈ r, n = Slots.lowest files ∧ n < limit

instance (limit : Nat) (files : Slots Entry) (r : Option Nat) :
    Decidable (Gives limit files r) :=
  match r with
  | none => .isTrue fun _ h => by cases h
  | some n =>
    decidable_of_iff (n = Slots.lowest files ∧ n < limit)
      ⟨fun h m hm => by cases hm; exact h, fun h => h n rfl⟩

/-- One step of a server that listens on `fd` and may have `limit`
descriptors.  The check and `accept` fail when `fd` is closed. -/
def step (limit fd : Nat) (s : State) : Act → Option State
  | .check ok =>
    if s.pc = .checks ∧ (ok = true → s.shut.closed = 0) then
      if ok then s.conn .work fun s => { s with pc := .accepts } else s.conn .leave id
    else none
  | .accept r =>
    if s.pc = .accepts ∧ Gives limit s.files r ∧ (r.isSome = true → s.shut.closed = 0) then
      s.conn .work fun s =>
        match r with
        | none => { s with pc := .checks }
        | some n =>
          { s with
            pc := .unblocks n
            files := Slots.fill .client s.files
            clients := s.clients + 1 }
    else none
  | .unblock ok =>
    match s.pc with
    | .unblocks n => s.alone { s with pc := if ok then .creates n else .checks }
    | _ => none
  | .create r =>
    match s.pc with
    | .creates n =>
      if Gives limit s.files r then
        s.conn .work fun s =>
          match r with
          | none => { s with pc := .checks, epollHandleFd := -1 }
          | some h =>
            { s with
              pc := .adds n
              epollHandleFd := h
              files := Slots.fill .handle s.files
              made := s.made + 1 }
      else none
    | _ => none
  | .add ok =>
    match s.pc with
    | .adds n =>
      s.conn .work fun s =>
        if ok then { s with pc := .serves n, served := s.served + 1 } else { s with pc := .checks }
    | _ => none
  | .round =>
    match s.pc with
    | .serves _ => s.conn .work id
    | _ => none
  | .serve closed =>
    match s.pc with
    | .serves n =>
      s.alone (if closed then
        { s with pc := .checks, files := Slots.free s.files n, clients := s.clients - 1 }
      else { s with pc := .checks })
    | _ => none
  | .main => s.shuts fd .main
  | .detector => s.shuts fd .detector
  | .sigint => s.conn .sigint id

/-- The check of the listening descriptor fails only when it is closed. -/
def Honest (s : State) (a : Act) : Prop := a = .check false → 0 < s.shut.closed

instance (s : State) (a : Act) : Decidable (Honest s a) :=
  inferInstanceAs (Decidable (_ → _))

/-! ## What a step does -/

section Steps

variable {limit fd : Nat} {s s' : State} {a : Act}

theorem conn_eq {b : Shutdown.Act} {f : State → State} (h : s.conn b f = some s') :
    ∃ t, Shutdown.step s.shut b = some t ∧ s' = f { s with shut := t } := by
  rw [State.conn, Option.map_eq_some_iff] at h
  obtain ⟨t, ht, rfl⟩ := h
  exact ⟨t, ht, rfl⟩

theorem alone_eq {t : State} (h : s.alone t = some s') : s' = t := by
  unfold State.alone at h
  split at h
  · exact (Option.some.inj h).symm
  · cases h

theorem shuts_eq {b : Shutdown.Act} (h : s.shuts fd b = some s') :
    ∃ t, Shutdown.step s.shut b = some t ∧ s' =
      { s with
        shut := t
        files := if s.shut.closed < t.closed then Slots.free s.files fd else s.files } := by
  rw [State.shuts, Option.map_eq_some_iff] at h
  obtain ⟨t, ht, rfl⟩ := h
  exact ⟨t, ht, rfl⟩

/-- The effects of a step.  Only `main` in its loop changes anything but the
shutdown and the entry of `fd`. -/
inductive Effect (limit fd : Nat) (s : State) : Act → State → Prop
  | passes {t : Shutdown.State} (hpc : s.pc = .checks) (hopen : s.shut.closed = 0)
      (ht : Shutdown.step s.shut .work = some t) :
      Effect limit fd s (.check true) { s with shut := t, pc := .accepts }
  | leaves {t : Shutdown.State} (ht : Shutdown.step s.shut .leave = some t) :
      Effect limit fd s (.check false) { s with shut := t }
  | accepts {t : Shutdown.State} {n : Nat} (hopen : s.shut.closed = 0)
      (hn : n = Slots.lowest s.files) (hlimit : n < limit)
      (ht : Shutdown.step s.shut .work = some t) :
      Effect limit fd s (.accept (some n))
        { s with
          shut := t
          pc := .unblocks n
          files := Slots.fill .client s.files
          clients := s.clients + 1 }
  | creates {t : Shutdown.State} {n h : Nat} (hpc : s.pc = .creates n)
      (hh : h = Slots.lowest s.files) (hlimit : h < limit)
      (ht : Shutdown.step s.shut .work = some t) :
      Effect limit fd s (.create (some h))
        { s with
          shut := t
          pc := .adds n
          epollHandleFd := h
          files := Slots.fill .handle s.files
          made := s.made + 1 }
  | adds {t : Shutdown.State} {n : Nat} (hpc : s.pc = .adds n)
      (ht : Shutdown.step s.shut .work = some t) :
      Effect limit fd s (.add true)
        { s with shut := t, pc := .serves n, served := s.served + 1 }
  | closes {n : Nat} (hpc : s.pc = .serves n) :
      Effect limit fd s (.serve true)
        { s with pc := .checks, files := Slots.free s.files n, clients := s.clients - 1 }
  | moves {a : Act} {t : Shutdown.State} {pc : ConnPc} {h : Int}
      (hpc : pc = .checks ∨ pc = s.pc ∨ ∃ n, s.pc = .unblocks n ∧ pc = .creates n)
      (ht : t = s.shut ∨ ∃ b, (b = .work ∨ b = .sigint) ∧ Shutdown.step s.shut b = some t) :
      Effect limit fd s a { s with shut := t, pc := pc, epollHandleFd := h }
  | shuts {a : Act} {b : Shutdown.Act} {t : Shutdown.State} (hb : b = .main ∨ b = .detector)
      (ht : Shutdown.step s.shut b = some t) :
      Effect limit fd s a
        { s with
          shut := t
          files := if s.shut.closed < t.closed then Slots.free s.files fd else s.files }

/-- Every step has one of these effects. -/
theorem effect_of_step (h : step limit fd s a = some s') : Effect limit fd s a s' := by
  cases a with
  | check ok =>
      simp only [step, Option.ite_none_right_eq_some] at h
      obtain ⟨⟨hpc, hopen⟩, h⟩ := h
      cases ok with
      | true =>
          rw [if_pos rfl] at h
          obtain ⟨t, ht, rfl⟩ := conn_eq h
          exact .passes hpc (hopen rfl) ht
      | false =>
          rw [if_neg Bool.false_ne_true] at h
          obtain ⟨t, ht, rfl⟩ := conn_eq h
          exact .leaves ht
  | accept r =>
      simp only [step, Option.ite_none_right_eq_some] at h
      obtain ⟨⟨_, hgives, hopen⟩, h⟩ := h
      obtain ⟨t, ht, rfl⟩ := conn_eq h
      cases r with
      | none => exact .moves (.inl rfl) (.inr ⟨.work, .inl rfl, ht⟩)
      | some n =>
          obtain ⟨hn, hlimit⟩ := hgives n rfl
          exact .accepts (hopen rfl) hn hlimit ht
  | unblock ok =>
      simp only [step] at h
      split at h
      · next n hpc =>
          rw [alone_eq h]
          cases ok with
          | true => exact .moves (.inr (.inr ⟨n, hpc, rfl⟩)) (.inl rfl)
          | false => exact .moves (.inl rfl) (.inl rfl)
      · cases h
  | create r =>
      simp only [step] at h
      split at h
      · next n hpc =>
          rw [Option.ite_none_right_eq_some] at h
          obtain ⟨hgives, h⟩ := h
          obtain ⟨t, ht, rfl⟩ := conn_eq h
          cases r with
          | none => exact .moves (.inl rfl) (.inr ⟨.work, .inl rfl, ht⟩)
          | some h' =>
              obtain ⟨hh, hlimit⟩ := hgives h' rfl
              exact .creates hpc hh hlimit ht
      · cases h
  | add ok =>
      simp only [step] at h
      split at h
      · next n hpc =>
          obtain ⟨t, ht, rfl⟩ := conn_eq h
          cases ok with
          | true => exact .adds hpc ht
          | false => exact .moves (.inl rfl) (.inr ⟨.work, .inl rfl, ht⟩)
      · cases h
  | round =>
      simp only [step] at h
      split at h
      · obtain ⟨t, ht, rfl⟩ := conn_eq h
        exact .moves (.inr (.inl rfl)) (.inr ⟨.work, .inl rfl, ht⟩)
      · cases h
  | serve closed =>
      simp only [step] at h
      split at h
      · next n hpc =>
          rw [alone_eq h]
          cases closed with
          | true => exact .closes hpc
          | false => exact .moves (.inl rfl) (.inl rfl)
      · cases h
  | main =>
      obtain ⟨t, ht, rfl⟩ := shuts_eq h
      exact .shuts (.inl rfl) ht
  | detector =>
      obtain ⟨t, ht, rfl⟩ := shuts_eq h
      exact .shuts (.inr rfl) ht
  | sigint =>
      obtain ⟨t, ht, rfl⟩ := conn_eq h
      exact .moves (.inr (.inl rfl)) (.inr ⟨.sigint, .inr rfl, ht⟩)

/-- The shutdown takes a step of its own or stays where it is. -/
theorem shut_step (hc : Honest s a) (h : step limit fd s a = some s') :
    s'.shut = s.shut ∨ Step Shutdown.step Shutdown.Honest s.shut s'.shut := by
  have hwork : ∀ {b t}, b ≠ .leave → Shutdown.step s.shut b = some t →
      Step Shutdown.step Shutdown.Honest s.shut t :=
    fun hb ht => ⟨_, fun hl => absurd hl hb, ht⟩
  cases effect_of_step h with
  | passes _ _ ht => exact .inr (hwork (by decide) ht)
  | leaves ht => exact .inr ⟨.leave, fun _ => hc rfl, ht⟩
  | accepts _ _ _ ht => exact .inr (hwork (by decide) ht)
  | creates _ _ _ ht => exact .inr (hwork (by decide) ht)
  | adds _ ht => exact .inr (hwork (by decide) ht)
  | closes _ => exact .inl rfl
  | moves _ ht =>
      rcases ht with rfl | ⟨b, rfl | rfl, ht⟩
      · exact .inl rfl
      · exact .inr (hwork (by decide) ht)
      · exact .inr (hwork (by decide) ht)
  | shuts hb ht =>
      rcases hb with rfl | rfl
      · exact .inr (hwork (by decide) ht)
      · exact .inr (hwork (by decide) ht)

end Steps

/-! ## What a run keeps -/

section Runs

variable {limit fd : Nat} {h : Int} {files : Slots Entry} {s s' : State} {a : Act}

/-- The shutdown of a server is one of those of `Shutdown`. -/
theorem shut_reach (hr : Reach (step limit fd) Honest (start h files) s) :
    Reach Shutdown.step Shutdown.Honest Shutdown.start s.shut :=
  hr.project State.shut fun hc hs => shut_step hc hs

/-- How many descriptors are used, and for what. -/
structure Ledger (limit fd base : Nat) (s : State) : Prop where
  length : s.files.length ≤ limit
  count : Slots.used s.files + s.shut.closed = base + s.made + s.clients
  listening : s.shut.closed = 0 → Slots.get s.files fd = some .listening
  client : ∀ n ∈ s.pc.client, Slots.get s.files n = some .client ∧ 0 < s.clients
  served : s.served ≤ s.made ∧ ∀ n, s.pc = .adds n → s.served < s.made
  lifetime : s.shut.closed = 0 → 0 < s.served → s.served + base + 1 ≤ limit

theorem ledger_start (hfd : Slots.get files fd = some .listening) (hlen : files.length ≤ limit) :
    Ledger limit fd (Slots.used files) (start h files) where
  length := hlen
  count := rfl
  listening _ := hfd
  client n hn := by cases hn
  served := ⟨Nat.le_refl 0, fun n hn => by cases hn⟩
  lifetime _ hpos := absurd hpos (Nat.lt_irrefl 0)

/-- A step that opens and closes nothing. -/
theorem Ledger.keep {base : Nat} (h : Ledger limit fd base s) {t : Shutdown.State}
    (ht : t.closed = s.shut.closed) {pc : ConnPc} (hpc : ∀ n ∈ pc.client, n ∈ s.pc.client)
    (hadds : ∀ n, pc = .adds n → s.pc = .adds n) (epfd : Int) :
    Ledger limit fd base { s with shut := t, pc := pc, epollHandleFd := epfd } where
  length := h.length
  count := by
    show Slots.used s.files + t.closed = _
    rw [ht]
    exact h.count
  listening hopen := h.listening (ht.symm.trans hopen)
  client n hn := h.client n (hpc n hn)
  served := ⟨h.served.1, fun n hn => h.served.2 n (hadds n hn)⟩
  lifetime hopen := h.lifetime (ht.symm.trans hopen)

/-- A new entry in the table. -/
theorem Ledger.fill {base : Nat} (h : Ledger limit fd base s) (b : Entry)
    (hlimit : Slots.lowest s.files < limit) :
    (Slots.fill b s.files).length ≤ limit ∧
      Slots.used (Slots.fill b s.files) + s.shut.closed = base + s.made + s.clients + 1 ∧
      (∀ n e, Slots.get s.files n = some e → Slots.get (Slots.fill b s.files) n = some e) ∧
      Slots.get (Slots.fill b s.files) (Slots.lowest s.files) = some b := by
  have hcount := h.count
  have hlen := h.length
  refine ⟨?_, ?_, fun n e hn => ?_, ?_⟩
  · rw [Slots.length_fill]
    omega
  · rw [Slots.used_fill]
    omega
  · rw [Slots.get_fill, if_neg, hn]
    rintro rfl
    rw [Slots.get_lowest] at hn
    cases hn
  · rw [Slots.get_fill, if_pos rfl]

/-- A table with one slot emptied. -/
theorem Ledger.free {base : Nat} (h : Ledger limit fd base s) {n : Nat} {b : Entry}
    (hn : Slots.get s.files n = some b) :
    (Slots.free s.files n).length ≤ limit ∧
      Slots.used (Slots.free s.files n) + s.shut.closed + 1 = base + s.made + s.clients ∧
      ∀ m e, Slots.get s.files m = some e → e ≠ b →
        Slots.get (Slots.free s.files n) m = some e := by
  have hcount := h.count
  have hused := Slots.used_free hn
  refine ⟨?_, by omega, fun m e hm hne => ?_⟩
  · rw [Slots.length_free]
    exact h.length
  · rw [Slots.get_free, if_neg, hm]
    rintro rfl
    exact hne (Option.some.inj (hm.symm.trans hn))

/-- What happens beside the two threads that shut the server down closes
nothing. -/
theorem closed_moves {t : Shutdown.State}
    (ht : t = s.shut ∨ ∃ b, (b = .work ∨ b = .sigint) ∧ Shutdown.step s.shut b = some t) :
    t.closed = s.shut.closed := by
  rcases ht with rfl | ⟨b, rfl | rfl, ht⟩
  · rfl
  · exact Shutdown.closed_same ht (by decide) (by decide)
  · exact Shutdown.closed_same ht (by decide) (by decide)

/-- One step. -/
theorem Ledger.step {base : Nat} (hl : Ledger limit fd base s) (honce : s'.shut.closed ≤ 1)
    (hs : step limit fd s a = some s') : Ledger limit fd base s' := by
  cases effect_of_step hs with
  | passes hpc hopen ht =>
      exact hl.keep (Shutdown.closed_same ht (by decide) (by decide)) (fun n hn => by cases hn)
        (fun n hn => by cases hn) _
  | leaves ht =>
      exact hl.keep (Shutdown.closed_same ht (by decide) (by decide)) (fun _ hn => hn) (fun _ hn => hn) _
  | @accepts t n hopen hn hlimit ht =>
      subst hn
      have hclosed := Shutdown.closed_same ht (by decide) (by decide)
      obtain ⟨hlength, hcount, hget, hnew⟩ := hl.fill .client hlimit
      constructor
      case length => exact hlength
      case count =>
        show Slots.used (Slots.fill .client s.files) + t.closed = base + s.made + (s.clients + 1)
        omega
      case listening => exact fun _ => hget fd _ (hl.listening hopen)
      case client =>
        intro m hm
        cases hm
        exact ⟨hnew, Nat.succ_pos _⟩
      case served => exact ⟨hl.served.1, fun m hm => by cases hm⟩
      case lifetime => exact fun _ => hl.lifetime hopen
  | @creates t n h hpc hh hlimit ht =>
      subst hh
      have hclosed := Shutdown.closed_same ht (by decide) (by decide)
      obtain ⟨hlength, hcount, hget, _⟩ := hl.fill .handle hlimit
      have hclient := hl.client n (by rw [hpc]; rfl)
      have hserved := hl.served.1
      constructor
      case length => exact hlength
      case count =>
        show Slots.used (Slots.fill .handle s.files) + t.closed = base + (s.made + 1) + s.clients
        omega
      case listening => exact fun hopen => hget fd _ (hl.listening (hclosed.symm.trans hopen))
      case client =>
        intro m hm
        cases hm
        exact ⟨hget n _ hclient.1, hclient.2⟩
      case served =>
        exact ⟨Nat.le_succ_of_le hserved, fun m _ => Nat.lt_succ_of_le hserved⟩
      case lifetime => exact fun hopen => hl.lifetime (hclosed.symm.trans hopen)
  | @adds t n hpc ht =>
      have hclosed := Shutdown.closed_same ht (by decide) (by decide)
      have hclient := hl.client n (by rw [hpc]; rfl)
      have hserved := hl.served.2 n hpc
      have hused := Slots.used_le_length s.files
      have hcount := hl.count
      have hlength := hl.length
      constructor
      case length => exact hlength
      case count =>
        show Slots.used s.files + t.closed = _
        rw [hclosed]
        exact hcount
      case listening => exact fun hopen => hl.listening (hclosed.symm.trans hopen)
      case client =>
        intro m hm
        cases hm
        exact hclient
      case served => exact ⟨hserved, fun m hm => by cases hm⟩
      case lifetime =>
        -- the client and the handle of this service are open as well
        intro hopen _
        have hzero : s.shut.closed = 0 := hclosed.symm.trans hopen
        show s.served + 1 + base + 1 ≤ limit
        omega
  | @closes n hpc =>
      have hclient := hl.client n (by rw [hpc]; rfl)
      obtain ⟨hlength, hcount, hget⟩ := hl.free hclient.1
      constructor
      case length => exact hlength
      case count =>
        show Slots.used (Slots.free s.files n) + s.shut.closed = base + s.made + (s.clients - 1)
        omega
      case listening => exact fun hopen => hget fd _ (hl.listening hopen) (by decide)
      case client => exact fun m hm => by cases hm
      case served => exact ⟨hl.served.1, fun m hm => by cases hm⟩
      case lifetime => exact hl.lifetime
  | @moves a t pc h hpc ht =>
      have hclosed := closed_moves ht
      rcases hpc with rfl | rfl | ⟨n, hpc, rfl⟩
      · exact hl.keep hclosed (fun n hn => by cases hn) (fun n hn => by cases hn) _
      · exact hl.keep hclosed (fun _ hn => hn) (fun _ hn => hn) _
      · refine hl.keep hclosed (fun m hm => ?_) (fun m hm => by cases hm) _
        cases hm
        rw [hpc]
        rfl
  | @shuts a b t hb ht =>
      obtain ⟨hlt, hone, hzero⟩ | ⟨hlt, hclosed⟩ := Shutdown.closed_first ht honce
      · obtain ⟨hlength, hcount, hget⟩ := hl.free (hl.listening hzero)
        rw [if_pos hlt]
        constructor
        case length => exact hlength
        case count =>
          show Slots.used (Slots.free s.files fd) + t.closed = base + s.made + s.clients
          omega
        case listening =>
          intro hopen
          have hzero : t.closed = 0 := hopen
          omega
        case client =>
          intro n hn
          have hclient := hl.client n hn
          exact ⟨hget n _ hclient.1 (by decide), hclient.2⟩
        case served => exact hl.served
        case lifetime =>
          intro hopen
          have hzero : t.closed = 0 := hopen
          omega
      · rw [if_neg hlt]
        exact hl.keep hclosed (fun _ hn => hn) (fun _ hn => hn) _

/-- The ledger of a run with honest checks. -/
theorem ledger_reach (hfd : Slots.get files fd = some .listening) (hlen : files.length ≤ limit)
    (hr : Reach (ServerMain.step limit fd) Honest (start h files) s) :
    Ledger limit fd (Slots.used files) s := by
  refine reach_invariant (fun {s a s'} hr hl hc hs => ?_) hr (ledger_start hfd hlen)
  have hnext := shut_reach (hr.tail ⟨a, hc, hs⟩)
  exact hl.step (Shutdown.closed_once hnext) hs

/-! ## The life of a server -/

/-- Nothing has happened to the shutdown, and `main` is at the top of its
loop. -/
structure Quiet (limit : Nat) (s : State) : Prop where
  shut : s.shut = Shutdown.start
  pc : s.pc = .checks
  length : s.files.length ≤ limit

theorem step_work {f : State → State} (hq : s.shut = Shutdown.start) :
    s.conn .work f = some (f s) := by
  have hwork : Shutdown.step Shutdown.start .work = some Shutdown.start := by decide
  rw [State.conn, hq, hwork, ← hq]
  rfl

theorem gives_lowest (hlimit : Slots.lowest files < limit) :
    Gives limit files (some (Slots.lowest files)) := by
  intro n hn
  cases hn
  exact ⟨rfl, hlimit⟩

/-- A client is accepted, served and closed, if two descriptors are free. -/
theorem serves_one (fd : Nat) (hq : Quiet limit s) (hroom : Slots.used s.files + 2 ≤ limit) :
    ∃ s', Reach (step limit fd) Honest s s' ∧ Quiet limit s' ∧
      Slots.used s'.files = Slots.used s.files + 1 ∧ s'.served = s.served + 1 := by
  obtain ⟨shut, pc, epfd, files, made, clients, served⟩ := s
  obtain ⟨rfl, rfl, hlen⟩ := hq
  have hfree : Slots.used files + 2 ≤ limit := hroom
  let n := Slots.lowest files
  let files₁ := Slots.fill .client files
  let m := Slots.lowest files₁
  let files₂ := Slots.fill .handle files₁
  have hn : n < limit := Nat.lt_of_le_of_lt (Slots.lowest_le_used files) (by omega)
  have hused₁ : Slots.used files₁ = Slots.used files + 1 := Slots.used_fill files .client
  have hm : m < limit := Nat.lt_of_le_of_lt (Slots.lowest_le_used files₁) (by omega)
  have hused₂ : Slots.used files₂ = Slots.used files + 2 := by
    rw [Slots.used_fill, hused₁]
  have hlen₂ : files₂.length ≤ limit := by
    rw [Slots.length_fill, Slots.length_fill]
    have hlen' : files.length ≤ limit := hlen
    omega
  have hclient : Slots.get files₂ n = some .client := by
    have hnew : Slots.get files₁ n = some .client := by rw [Slots.get_fill, if_pos rfl]
    rw [Slots.get_fill, if_neg, hnew]
    intro heq
    rw [heq, Slots.get_lowest] at hnew
    cases hnew
  have hgone := Slots.used_free hclient
  -- one round of the loop
  have hcheck : step limit fd ⟨Shutdown.start, .checks, epfd, files, made, clients, served⟩
      (.check true) = some ⟨Shutdown.start, .accepts, epfd, files, made, clients, served⟩ := by
    rw [step, if_pos ⟨rfl, fun _ => rfl⟩, if_pos rfl]
    exact step_work rfl
  have haccept : step limit fd ⟨Shutdown.start, .accepts, epfd, files, made, clients, served⟩
      (.accept (some n)) =
      some ⟨Shutdown.start, .unblocks n, epfd, files₁, made, clients + 1, served⟩ := by
    rw [step, if_pos ⟨rfl, gives_lowest hn, fun _ => rfl⟩]
    exact step_work rfl
  have hunblock : step limit fd
      ⟨Shutdown.start, .unblocks n, epfd, files₁, made, clients + 1, served⟩ (.unblock true) =
      some ⟨Shutdown.start, .creates n, epfd, files₁, made, clients + 1, served⟩ := rfl
  have hcreate : step limit fd
      ⟨Shutdown.start, .creates n, epfd, files₁, made, clients + 1, served⟩ (.create (some m)) =
      some ⟨Shutdown.start, .adds n, m, files₂, made + 1, clients + 1, served⟩ := by
    show (if Gives limit files₁ (some m) then _ else none) = _
    rw [if_pos (gives_lowest hm)]
    exact step_work rfl
  have hadd : step limit fd
      ⟨Shutdown.start, .adds n, m, files₂, made + 1, clients + 1, served⟩ (.add true) =
      some ⟨Shutdown.start, .serves n, m, files₂, made + 1, clients + 1, served + 1⟩ :=
    rfl
  have hserve : step limit fd
      ⟨Shutdown.start, .serves n, m, files₂, made + 1, clients + 1, served + 1⟩ (.serve true) =
      some ⟨Shutdown.start, .checks, m, Slots.free files₂ n, made + 1, clients, served + 1⟩ := rfl
  have hhonest : ∀ {t : State} {a : Act}, a ≠ .check false → Honest t a :=
    fun hne ha => absurd ha hne
  refine ⟨_, .head ⟨_, hhonest (by decide), hcheck⟩ <| .head ⟨_, hhonest (by simp), haccept⟩ <|
    .head ⟨_, hhonest (by decide), hunblock⟩ <| .head ⟨_, hhonest (by simp), hcreate⟩ <|
    .head ⟨_, hhonest (by decide), hadd⟩ <| .head ⟨_, hhonest (by decide), hserve⟩ .refl,
    ⟨rfl, rfl, ?_⟩, ?_, rfl⟩
  · show (Slots.free files₂ n).length ≤ limit
    rw [Slots.length_free]
    exact hlen₂
  · show Slots.used (Slots.free files₂ n) = Slots.used files + 1
    omega

/-- As many clients as there are free descriptors, less one. -/
theorem serves_many (fd : Nat) (hlen : files.length ≤ limit) (k : Nat)
    (hroom : k = 0 ∨ Slots.used files + k + 1 ≤ limit) :
    ∃ s, Reach (step limit fd) Honest (start h files) s ∧ Quiet limit s ∧
      Slots.used s.files = Slots.used files + k ∧ s.served = k := by
  induction k with
  | zero => exact ⟨start h files, .refl, ⟨rfl, rfl, hlen⟩, rfl, rfl⟩
  | succ k ih =>
      have hroom' : Slots.used files + (k + 1) + 1 ≤ limit :=
        hroom.resolve_left (Nat.succ_ne_zero k)
      obtain ⟨s, hr, hq, hused, hserved⟩ := ih (.inr (by omega))
      obtain ⟨s', hr', hq', hused', hserved'⟩ := serves_one fd hq (by omega)
      exact ⟨s', hr.trans hr', hq', by omega, by omega⟩

/-- **How many clients a server serves.**  As long as its socket is open, a
server that starts with these descriptors may have served any number of
clients up to the number of its free descriptors less one, and never more. -/
theorem lifetime_iff (h : Int) (hfd : Slots.get files fd = some .listening)
    (hlen : files.length ≤ limit) (k : Nat) :
    (∃ s, Reach (step limit fd) Honest (start h files) s ∧ s.shut.closed = 0 ∧
      s.served = k) ↔ k ≤ limit - (Slots.used files + 1) := by
  constructor
  · rintro ⟨s, hr, hopen, rfl⟩
    by_cases hpos : 0 < s.served
    · have hle := (ledger_reach hfd hlen hr).lifetime hopen hpos
      omega
    · omega
  · intro hk
    obtain ⟨s, hr, hq, _, hserved⟩ := serves_many fd (h := h) hlen k (by omega)
    exact ⟨s, hr, by rw [hq.shut]; rfl, hserved⟩

/-- A process that may have 1024 descriptors, of which it has five at the
start, can serve 1018 clients. -/
theorem lifetime_iff_default :
    ∃ s, Reach (step 1024 3) Honest
      (start 4 [some .inherited, some .inherited, some .inherited, some .listening,
        some .handle]) s ∧ s.shut.closed = 0 ∧ s.served = 1018 :=
  (lifetime_iff 4 rfl (by decide) 1018).2 (by decide)

/-! ## What is open at the end -/

/-- How many descriptors of a kind `server_conn` has opened and not closed. -/
def opened (s : State) : Entry → Nat
  | .handle => s.made
  | .client => s.clients
  | .inherited | .listening => 0

/-- The descriptors of the start are where they were, and the others are those
that `server_conn` has opened. -/
structure Table (fd : Nat) (files : Slots Entry) (s : State) : Prop where
  kept : ∀ n e, n ≠ fd → Slots.get files n = some e → Slots.get s.files n = some e
  client : ∀ n ∈ s.pc.client, ∀ e, n ≠ fd → Slots.get files n ≠ some e
  kinds : ∀ e, Slots.usedBy e s.files + (if .listening = e then s.shut.closed else 0) =
    Slots.usedBy e files + opened s e

theorem table_start : Table fd files (start h files) where
  kept _ _ _ hn := hn
  client n hn := by cases hn
  kinds e := by
    show Slots.usedBy e files + (if Entry.listening = e then 0 else 0) = _
    rw [ite_self]
    cases e <;> rfl

/-- A step that opens and closes nothing. -/
theorem Table.keep (hk : Table fd files s) {t : Shutdown.State}
    (ht : t.closed = s.shut.closed) {pc : ConnPc} (hpc : ∀ n ∈ pc.client, n ∈ s.pc.client)
    {served : Nat} (epfd : Int) :
    Table fd files
      { s with shut := t, pc := pc, epollHandleFd := epfd, served := served } where
  kept := hk.kept
  client n hn := hk.client n (hpc n hn)
  kinds e := by
    show Slots.usedBy e s.files + (if Entry.listening = e then t.closed else 0) = _
    rw [ht]
    exact hk.kinds e

/-- A new descriptor takes the place of no old one. -/
theorem Table.kept_fill (hk : Table fd files s) (b : Entry) :
    (∀ n e, n ≠ fd → Slots.get files n = some e →
      Slots.get (Slots.fill b s.files) n = some e) ∧
      ∀ e, Slots.lowest s.files ≠ fd → Slots.get files (Slots.lowest s.files) ≠ some e := by
  have hfree : ∀ e, Slots.lowest s.files ≠ fd →
      Slots.get files (Slots.lowest s.files) ≠ some e := by
    intro e hne hget
    have hold := hk.kept _ e hne hget
    rw [Slots.get_lowest] at hold
    cases hold
  refine ⟨fun n e hne hget => ?_, hfree⟩
  rw [Slots.get_fill, if_neg, hk.kept n e hne hget]
  rintro rfl
  exact hfree e hne hget

/-- One step. -/
theorem Table.step {base : Nat} (hk : Table fd files s) (hl : Ledger limit fd base s)
    (honce : s'.shut.closed ≤ 1) (hs : step limit fd s a = some s') : Table fd files s' := by
  cases effect_of_step hs with
  | passes hpc hopen ht =>
      exact hk.keep (Shutdown.closed_same ht (by decide) (by decide)) (fun n hn => by cases hn) _
  | leaves ht => exact hk.keep (Shutdown.closed_same ht (by decide) (by decide)) (fun _ hn => hn) _
  | @accepts t n hopen hn hlimit ht =>
      subst hn
      have hclosed := Shutdown.closed_same ht (by decide) (by decide)
      obtain ⟨hkept, hfree⟩ := hk.kept_fill .client
      refine ⟨hkept, ?_, fun e => ?_⟩
      · rintro _ ⟨⟩ e
        exact hfree e
      · have hkinds := hk.kinds e
        show Slots.usedBy e (Slots.fill .client s.files) +
          (if Entry.listening = e then t.closed else 0) = _
        rw [Slots.usedBy_fill, hclosed]
        cases e <;> simp [opened] at hkinds ⊢ <;> omega
  | @creates t n h hpc hh hlimit ht =>
      subst hh
      have hclosed := Shutdown.closed_same ht (by decide) (by decide)
      obtain ⟨hkept, -⟩ := hk.kept_fill .handle
      refine ⟨hkept, ?_, fun e => ?_⟩
      · rintro _ ⟨⟩
        exact hk.client n (by rw [hpc]; rfl)
      · have hkinds := hk.kinds e
        show Slots.usedBy e (Slots.fill .handle s.files) +
          (if Entry.listening = e then t.closed else 0) = _
        rw [Slots.usedBy_fill, hclosed]
        cases e <;> simp [opened] at hkinds ⊢ <;> omega
  | @adds t n hpc ht =>
      refine hk.keep (Shutdown.closed_same ht (by decide) (by decide)) ?_ _
      rintro _ ⟨⟩
      rw [hpc]
      rfl
  | @closes n hpc =>
      have hmem : n ∈ s.pc.client := by
        rw [hpc]
        rfl
      obtain ⟨hget, hpos⟩ := hl.client n hmem
      refine ⟨fun m e hne hm => ?_, fun m hm => (by cases hm), fun e => ?_⟩
      · rw [Slots.get_free, if_neg, hk.kept m e hne hm]
        rintro rfl
        exact hk.client m hmem e hne hm
      · have hkinds := hk.kinds e
        have hfreed := Slots.usedBy_free hget e
        show Slots.usedBy e (Slots.free s.files n) +
          (if Entry.listening = e then s.shut.closed else 0) = _
        cases e <;> simp [opened] at hkinds hfreed ⊢ <;> omega
  | @moves a t pc h hpc ht =>
      have hclosed := closed_moves ht
      refine hk.keep hclosed ?_ _
      rcases hpc with rfl | rfl | ⟨n, hpc, rfl⟩
      · exact fun n hn => by cases hn
      · exact fun _ hn => hn
      · rintro _ ⟨⟩
        rw [hpc]
        rfl
  | @shuts a b t hb ht =>
      obtain ⟨hlt, hone, hzero⟩ | ⟨hlt, hclosed⟩ := Shutdown.closed_first ht honce
      · rw [if_pos hlt]
        refine ⟨fun n e hne hn => ?_, hk.client, fun e => ?_⟩
        · rw [Slots.get_free, if_neg hne]
          exact hk.kept n e hne hn
        · have hkinds := hk.kinds e
          have hfreed := Slots.usedBy_free (hl.listening hzero) e
          rw [hzero] at hkinds
          show Slots.usedBy e (Slots.free s.files fd) +
            (if Entry.listening = e then t.closed else 0) = Slots.usedBy e files + opened s e
          rw [hone]
          cases e <;> simp at hkinds hfreed ⊢ <;> omega
      · rw [if_neg hlt]
        exact hk.keep hclosed (fun _ hn => hn) _

/-- The table of a run with honest checks. -/
theorem table_reach (hfd : Slots.get files fd = some .listening) (hlen : files.length ≤ limit)
    (hr : Reach (ServerMain.step limit fd) Honest (start h files) s) : Table fd files s := by
  refine reach_invariant (fun {s a s'} hr hk hc hs => ?_) hr table_start
  have hnext := shut_reach (hr.tail ⟨a, hc, hs⟩)
  exact hk.step (ledger_reach hfd hlen hr) (Shutdown.closed_once hnext) hs

/-- **What is open when the server ends.**  `main` returns after the object was
destroyed once.  The descriptors of the start are then where they were, but for
the listening socket, and there is one more for every epoll handle ever made
and for every client that was not closed. -/
theorem open_at_end (h : Int) (hfd : Slots.get files fd = some .listening)
    (hlen : files.length ≤ limit)
    (hr : Reach (step limit fd) Honest (start h files) s) (hm : s.shut.main = .returned) :
    (s.shut.closed = 1 ∧ s.shut.freed = 1) ∧
      (∀ n e, n ≠ fd → Slots.get files n = some e → Slots.get s.files n = some e) ∧
      Slots.usedBy .inherited s.files = Slots.usedBy .inherited files ∧
      Slots.usedBy .listening s.files + 1 = Slots.usedBy .listening files ∧
      Slots.usedBy .handle s.files = Slots.usedBy .handle files + s.made ∧
      Slots.usedBy .client s.files = Slots.usedBy .client files + s.clients := by
  have hk := table_reach hfd hlen hr
  have hend := (Shutdown.destroyed_of_shut
    (Shutdown.shut_reach (Shutdown.orderly_of_honest (shut_reach hr)).1)).2.2 hm
  have hlistening := hk.kinds .listening
  rw [if_pos rfl, hend.1] at hlistening
  exact ⟨hend, hk.kept, hk.kinds .inherited, hlistening, hk.kinds .handle, hk.kinds .client⟩

/-- One client is served, and SIGINT ends the server: the handle made for the
client stays open beside the one of the start. -/
theorem open_at_end_served :
    ∃ s, Reach (step 1024 3) Honest
      (start 4 [some .inherited, some .inherited, some .inherited, some .listening,
        some .handle]) s ∧ s.shut.main = .returned ∧ s.made = 1 ∧ s.clients = 0 ∧
      Slots.usedBy .handle s.files = 2 := by
  have hrun := exists_reach_of_exec (step 1024 3) Honest
    (start 4 [some .inherited, some .inherited, some .inherited, some .listening,
      some .handle])
    [.check true, .accept (some 5), .unblock true, .create (some 6), .add true, .round,
      .serve true, .sigint, .detector, .detector, .detector, .check false, .detector,
      .detector, .main, .main]
    (fun s => s.shut.main = .returned ∧ s.made = 1 ∧ s.clients = 0) (by decide)
  obtain ⟨s, hr, hm, hmade, hclients⟩ := hrun
  have hhandles := (open_at_end 4 rfl (by decide) hr hm).2.2.2.2.1
  rw [hmade] at hhandles
  exact ⟨s, hr, hm, hmade, hclients, hhandles⟩

end Runs

end ZeroCopyProxy.Ports.ServerMain
