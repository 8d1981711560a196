/-
  Jos.Machine.Fsipc — **WHOSE REPLY `fsipc` RETURNS** (`lib/file.c`, `lib/ipc.c`, `fs/serv.c`).

  A call of `fsipc` is two meetings: the client sends its request to the file
  server, and then waits in `ipc_recv(NULL, dstva, NULL)` for a message from
  anyone.  Between the two, and while it waits, all other environments run.

      §1  messages as the kernel passes them, without the rest of the kernel
      §2  clients, server and bystanders
      §3  the invariant: the server has at most one request, and a client
          whose request it has waits for the reply
      §4  the kernel's `sys_ipc_try_send` is the one of §1
-/
import Jos.Machine.Leave
import Jos.Mem.RefWrap
import Jos.Mem.IpcSend

namespace Jos

open Function (update update_of_ne update_self update_eq_self)

variable {b b' : Box} {a e job : Nat} {envid perm r srcva value : Word}

/-! ## §1. Messages. -/

/-- What the kernel keeps of an environment for messages, and its mappings. -/
structure Box where
  live : Bool
  id : Word
  recving : Bool
  dstva : Word
  from_ : Word
  value : Word
  perm : Word
  page : Nat → Option (Nat × Word)

abbrev Post := Nat → Box

/-- `envid2env(envid, &e, 0)` for the caller `c`. -/
def Post.find (p : Post) (c : Nat) (envid : Word) : Option Nat :=
  if envid = 0#32 then some c
  else if (p (envx envid)).live = false ∨ (p (envx envid)).id ≠ envid then none
  else some (envx envid)

def Box.received (b : Box) (from_ value perm : Word) : Box :=
  { b with recving := false, from_ := from_, value := value, perm := perm }

def Box.map (b : Box) (v : Nat) (entry : Nat × Word) : Box :=
  { b with page := update b.page v (some entry) }

/-- `sys_ipc_try_send` called by `c`; `none` is a panic. -/
def Post.trySend (p : Post) (c : Nat) (envid value srcva perm : Word) : Option (Word × Post) :=
  match p.find c envid with
  | none => none
  | some e =>
    if (p e).recving = false then some (-E_IPC_NOT_RECV, p)
    else if srcva < UTOP then
      match (p c).page (pgnum srcva) with
      | none => none
      | some (pp, f) =>
        if rounddown srcva ≠ srcva ∨ !permOk perm then none
        else if perm &&& PTE_W ≠ 0#32 ∧ f &&& PTE_W = 0#32 then none
        else if (p e).dstva < UTOP then
          some (0#32, update p e (((p e).received (p c).id value perm).map
            (pgnum (p e).dstva) (pp, perm ||| PTE_P)))
        else some (0#32, update p e ((p e).received (p c).id value 0#32))
    else some (0#32, update p e ((p e).received (p c).id value 0#32))

/-- What `sys_ipc_recv(dstva)` records. -/
def Post.recv (p : Post) (c : Nat) (dstva : Word) : Post :=
  update p c { p c with recving := true, dstva := dstva }

/-- The page a message from `a` to `b` carries. -/
def carried (a b : Box) (srcva : Word) : Option Nat :=
  if srcva < UTOP ∧ b.dstva < UTOP then (a.page (pgnum srcva)).map Prod.fst else none

/-- The page at the address at which messages are received. -/
def Box.got (b : Box) : Option Nat :=
  if b.dstva < UTOP then (b.page (pgnum b.dstva)).map Prod.fst else none

/-- `b'` is `b` after a message from `a`. -/
structure Delivered (a b : Box) (value srcva perm : Word) (b' : Box) : Prop where
  live : b'.live = b.live
  id : b'.id = b.id
  dstva : b'.dstva = b.dstva
  recving : b'.recving = false
  from_ : b'.from_ = a.id
  value : b'.value = value
  perm : srcva < UTOP → b.dstva < UTOP → b'.perm = perm
  page : ∀ q, carried a b srcva = some q → b'.got = some q

/-- A send finds its target not waiting and changes nothing, or delivers. -/
theorem trySend_spec {p p' : Post} {c : Nat}
    (h : p.trySend c envid value srcva perm = some (r, p')) :
    ∃ e, p.find c envid = some e ∧
      ((r ≠ 0#32 ∧ p' = p) ∨
        (r = 0#32 ∧ (p e).recving = true ∧
          ∃ b', p' = update p e b' ∧ Delivered (p c) (p e) value srcva perm b')) := by
  unfold Post.trySend at h
  cases hfind : p.find c envid with
  | none =>
    rw [hfind] at h
    cases h
  | some e =>
    rw [hfind] at h
    refine ⟨e, rfl, ?_⟩
    dsimp only at h
    -- the message without a page
    have hplain : ¬ (srcva < UTOP ∧ (p e).dstva < UTOP) →
        Delivered (p c) (p e) value srcva perm ((p e).received (p c).id value 0#32) := by
      intro hno
      refine ⟨rfl, rfl, rfl, rfl, rfl, rfl, fun hs hd => absurd ⟨hs, hd⟩ hno, fun q hq => ?_⟩
      rw [carried, if_neg hno] at hq
      cases hq
    by_cases hrecv : (p e).recving = false
    · rw [if_pos hrecv] at h
      cases h
      exact Or.inl ⟨by decide, rfl⟩
    rw [if_neg hrecv] at h
    have hrecv' : (p e).recving = true := by simpa using hrecv
    by_cases hsrc : srcva < UTOP
    · rw [if_pos hsrc] at h
      cases hpage : (p c).page (pgnum srcva) with
      | none =>
        rw [hpage] at h
        cases h
      | some x =>
        rw [hpage] at h
        dsimp only at h
        split at h
        · cases h
        · split at h
          · cases h
          · by_cases hdst : (p e).dstva < UTOP
            · rw [if_pos hdst] at h
              cases h
              refine Or.inr ⟨rfl, hrecv', _, rfl, rfl, rfl, rfl, rfl, rfl, rfl,
                fun _ _ => rfl, fun q hq => ?_⟩
              rw [carried, if_pos ⟨hsrc, hdst⟩, hpage] at hq
              unfold Box.got Box.map
              rw [if_pos (show ((p e).received (p c).id value perm).dstva < UTOP from hdst)]
              show Option.map Prod.fst (update (p e).page (pgnum (p e).dstva) _
                (pgnum (p e).dstva)) = some q
              rw [update_self]
              exact hq
            · rw [if_neg hdst] at h
              cases h
              exact Or.inr ⟨rfl, hrecv', _, rfl, hplain fun hc => hdst hc.2⟩
    · rw [if_neg hsrc] at h
      cases h
      exact Or.inr ⟨rfl, hrecv', _, rfl, hplain fun hc => hsrc hc.1⟩

/-! ## §2. The system. -/

/-- Where an environment is in `fsipc(type, dstva)`; `job` numbers the requests
the server has been sent. -/
inductive Client where
  | out
  /-- In the loop of `ipc_send`. -/
  | sending (type dstva : Word)
  /-- `ipc_send` has returned. -/
  | accepted (type dstva : Word) (job : Nat)
  /-- In `sys_ipc_recv`. -/
  | blocked (type dstva : Word) (job : Nat)

/-- Where the server is in the loop of `serve`. -/
inductive Server where
  | ready
  /-- In `sys_ipc_recv`. -/
  | waiting
  /-- In the handler. -/
  | serving (whom req : Word) (job : Nat)
  /-- In the loop of `ipc_send`. -/
  | answering (whom r pg perm : Word) (job : Nat)

/-- The server has sent the reply to request `job`. -/
structure Answer where
  job : Nat
  value : Word
  page : Option Nat

/-- `fsipc(type, dstva)` has returned `value` to `client`, whose request had the
number `job`; `page` is mapped at `dstva`. -/
structure Returned where
  client : Nat
  type : Word
  job : Nat
  value : Word
  page : Option Nat

structure FsNet where
  post : Post
  client : Nat → Client
  server : Server
  jobs : Nat
  /-- Who sent request `job`, and its value. -/
  asked : Nat → Option (Nat × Word)
  answers : List Answer
  returned : List Returned

/-- `pg ? pg : (void*)UTOP`. -/
def orUtop (pg : Word) : Word := if pg = 0#32 then UTOP else pg

/-- The address at which the server receives requests. -/
def fsreqVa : Word := 0x0ffff000#32

/-- A message to the server that was delivered is a request. -/
def FsNet.logRequest (g : FsNet) (fs a : Nat) (envid value r : Word) : FsNet :=
  if g.post.find a envid = some fs ∧ r = 0#32 then
    { g with
      jobs := g.jobs + 1
      asked := update g.asked (g.jobs + 1) (some (a, value)) }
  else g

/-- `e` waits in the `ipc_recv` of `fsipc`, or its message is there and it has
not run yet. -/
def FsNet.Blocked (g : FsNet) (e : Nat) : Prop :=
  ∃ type dstva job, g.client e = .blocked type dstva job

/-- The steps; `fs` is the server.  Environments outside `fsipc` do what they
like; `spare g e` is required of a message to `e` that does not come from the
server or from `fsipc`. -/
inductive NetStep (spare : FsNet → Nat → Prop) (fs : Nat) (g : FsNet) : FsNet → Prop where
  /-- The mappings of `a` change. -/
  | pages {a : Nat} (m : Nat → Option (Nat × Word)) (hfree : ¬ g.Blocked a) :
      NetStep spare fs g { g with post := update g.post a { g.post a with page := m } }
  /-- `sys_ipc_try_send`, outside `fsipc`. -/
  | send {a : Nat} {envid value srcva perm r : Word} {p' : Post} (ha : a < NENV)
      (hlive : (g.post a).live = true) (hfs : a ≠ fs) (hout : g.client a = .out)
      (hrun : (g.post a).recving = false)
      (hspare : ∀ e, g.post.find a envid = some e → spare g e)
      (hcall : g.post.trySend a envid value srcva perm = some (r, p')) :
      NetStep spare fs g { g.logRequest fs a envid value r with post := p' }
  /-- `sys_ipc_recv`, outside `fsipc`. -/
  | recv {a : Nat} (dstva : Word) (hfs : a ≠ fs) (hout : g.client a = .out)
      (hrun : (g.post a).recving = false) (hal : dstva < UTOP → rounddown dstva = dstva) :
      NetStep spare fs g { g with post := g.post.recv a dstva }
  /-- `fsipc(type, dstva)` is called; `dstva` is 0 or the address of a page. -/
  | call {c : Nat} (type dstva : Word) (hc : c < NENV) (hlive : (g.post c).live = true)
      (hfs : c ≠ fs) (hout : g.client c = .out) (hrun : (g.post c).recving = false)
      (hal : rounddown dstva = dstva) :
      NetStep spare fs g { g with client := update g.client c (.sending type dstva) }
  /-- A round of `ipc_send(fsenv, type, &fsipcbuf, PTE_P | PTE_W | PTE_U)`. -/
  | request {c : Nat} {type dstva fsipcbuf r : Word} {p' : Post}
      (hat : g.client c = .sending type dstva) (hbuf : fsipcbuf < UTOP)
      (hcall : g.post.trySend c (g.post fs).id type fsipcbuf (PTE_P ||| PTE_W ||| PTE_U)
        = some (r, p')) :
      NetStep spare fs g { g.logRequest fs c (g.post fs).id type r with
        post := p'
        client := if r = 0#32 then
          update g.client c (.accepted type dstva (g.jobs + 1)) else g.client }
  /-- `sys_ipc_recv` in `ipc_recv(NULL, dstva, NULL)`. -/
  | await {c : Nat} {type dstva : Word} {job : Nat} (hat : g.client c = .accepted type dstva job) :
      NetStep spare fs g { g with
        post := g.post.recv c (orUtop dstva)
        client := update g.client c (.blocked type dstva job) }
  /-- It returns. -/
  | returns {c : Nat} {type dstva : Word} {job : Nat} (hat : g.client c = .blocked type dstva job)
      (hrun : (g.post c).recving = false) :
      NetStep spare fs g { g with
        client := update g.client c .out
        returned := ⟨c, type, job, (g.post c).value, (g.post c).got⟩ :: g.returned }
  /-- `ipc_recv(&whom, fsreq, &perm)` of the server. -/
  | wait (hat : g.server = .ready) :
      NetStep spare fs g { g with post := g.post.recv fs fsreqVa, server := .waiting }
  /-- It returns; without a page the request is left hanging. -/
  | take (hat : g.server = .waiting) (hrun : (g.post fs).recving = false) :
      NetStep spare fs g { g with
        server := if (g.post fs).perm &&& PTE_P = 0#32 then .ready
          else .serving (g.post fs).from_ (g.post fs).value g.jobs }
  /-- A handler has run. -/
  | handled {whom req : Word} {job : Nat} (r pg perm : Word)
      (hat : g.server = .serving whom req job) :
      NetStep spare fs g { g with server := .answering whom r pg perm job }
  /-- A round of `ipc_send(whom, r, pg, perm)`. -/
  | answer {whom r pg perm res : Word} {job : Nat} {p' : Post}
      (hat : g.server = .answering whom r pg perm job)
      (hcall : g.post.trySend fs whom r (orUtop pg) perm = some (res, p')) :
      NetStep spare fs g (match g.post.find fs whom with
        | some e => if res = 0#32 then { g with
              post := p'
              server := .ready
              answers := ⟨job, r, carried (g.post fs) (g.post e) (orUtop pg)⟩ :: g.answers }
            else g
        | none => g)

/-- No client has called `fsipc` yet, the server has not started, and ids name
slots, as `env_alloc` makes them. -/
structure FsStart (fs : Nat) (g : FsNet) : Prop where
  ids : ∀ e < NENV, (g.post e).live = true → envx (g.post e).id = e ∧ (g.post e).id ≠ 0#32
  fs_lt : fs < NENV
  fs_live : (g.post fs).live = true
  fs_idle : (g.post fs).recving = false
  out : ∀ c, g.client c = .out
  server : g.server = .ready
  asked : ∀ job, g.asked job = none
  answers : g.answers = []
  returned : g.returned = []

/-! ## §3. The invariant. -/

/-- Request `job`, with the value `req` and from `whom`, is the last one, and it
has not been answered. -/
structure Current (g : FsNet) (whom req : Word) (job : Nat) : Prop where
  last : job = g.jobs
  fresh : ∀ x ∈ g.answers, x.job < job
  asked : ∃ a < NENV, (g.post a).live = true ∧ g.asked job = some (a, req) ∧
    whom = (g.post a).id

inductive ServerOk (fs : Nat) (g : FsNet) : Prop where
  | ready (hat : g.server = .ready) (hrun : (g.post fs).recving = false)
  | waiting (hat : g.server = .waiting) (hrecv : (g.post fs).recving = true)
      (hdst : (g.post fs).dstva = fsreqVa)
  | delivered (hat : g.server = .waiting) (hrun : (g.post fs).recving = false)
      (hcur : Current g (g.post fs).from_ (g.post fs).value g.jobs)
  | serving {whom req : Word} {job : Nat} (hat : g.server = .serving whom req job)
      (hrun : (g.post fs).recving = false) (hcur : Current g whom req job)
  | answering {whom r pg perm req : Word} {job : Nat}
      (hat : g.server = .answering whom r pg perm job)
      (hrun : (g.post fs).recving = false) (hcur : Current g whom req job)

/-- The server has request `job` and will answer it. -/
def Pending (fs : Nat) (g : FsNet) (job : Nat) : Prop :=
  job = g.jobs ∧
    (g.server = .waiting ∧ (g.post fs).recving = false ∧ (g.post fs).perm &&& PTE_P ≠ 0#32 ∨
      (∃ whom req, g.server = .serving whom req job) ∨
      ∃ whom r pg perm, g.server = .answering whom r pg perm job)

/-- The message that `c` has got is the reply to request `job`. -/
def Answered (g : FsNet) (job : Nat) (value : Word) (page : Option Nat) : Prop :=
  ∃ x ∈ g.answers, x.job = job ∧ x.value = value ∧ ∀ q, x.page = some q → page = some q

inductive ClientOk (fs : Nat) (g : FsNet) (c : Nat) : Client → Prop where
  | out : ClientOk fs g c .out
  | sending {type dstva : Word} (hrun : (g.post c).recving = false) :
      ClientOk fs g c (.sending type dstva)
  | accepted {type dstva : Word} {job : Nat} (hrun : (g.post c).recving = false)
      (hasked : g.asked job = some (c, type)) (hpend : Pending fs g job) :
      ClientOk fs g c (.accepted type dstva job)
  | pending {type dstva : Word} {job : Nat} (hrecv : (g.post c).recving = true)
      (hasked : g.asked job = some (c, type)) (hpend : Pending fs g job) :
      ClientOk fs g c (.blocked type dstva job)
  | answered {type dstva : Word} {job : Nat} (hrun : (g.post c).recving = false)
      (hasked : g.asked job = some (c, type))
      (hans : Answered g job (g.post c).value (g.post c).got) :
      ClientOk fs g c (.blocked type dstva job)

structure FsNetInv (fs : Nat) (g : FsNet) : Prop where
  ids : ∀ e < NENV, (g.post e).live = true → envx (g.post e).id = e ∧ (g.post e).id ≠ 0#32
  fs_lt : fs < NENV
  fs_live : (g.post fs).live = true
  server : ServerOk fs g
  client : ∀ c, ClientOk fs g c (g.client c)
  member : ∀ c, g.client c ≠ .out → c < NENV ∧ (g.post c).live = true ∧ c ≠ fs
  jobs : ∀ x ∈ g.answers, x.job ≤ g.jobs
  asked : ∀ job, g.jobs < job → g.asked job = none
  once : ∀ x ∈ g.answers, ∀ y ∈ g.answers, x.job = y.job → x = y
  returned : ∀ x ∈ g.returned, g.asked x.job = some (x.client, x.type) ∧
    Answered g x.job x.value x.page

section

variable {fs : Nat} {g g' : FsNet}

theorem FsStart.inv (h : FsStart fs g) : FsNetInv fs g where
  ids := h.ids
  fs_lt := h.fs_lt
  fs_live := h.fs_live
  server := .ready h.server h.fs_idle
  client c := by
    rw [h.out c]
    exact .out
  member c hc := absurd (h.out c) hc
  jobs x hx := by
    rw [h.answers] at hx
    cases hx
  asked job _ := h.asked job
  once x hx := by
    rw [h.answers] at hx
    cases hx
  returned x hx := by
    rw [h.returned] at hx
    cases hx

/-- Nobody's id or liveness changes. -/
def SameIds (p p' : Post) : Prop := ∀ e, (p' e).live = (p e).live ∧ (p' e).id = (p e).id

theorem sameIds_update {p : Post} (hl : b.live = (p e).live)
    (hi : b.id = (p e).id) : SameIds p (update p e b) := by
  intro i
  by_cases hie : i = e
  · subst hie
    rw [update_self]
    exact ⟨hl, hi⟩
  · rw [update_of_ne hie]
    exact ⟨rfl, rfl⟩

theorem SameIds.current {whom req : Word} (hids : SameIds g.post g'.post)
    (h : Current g whom req job) (hjobs : g'.jobs = g.jobs) (hasked : g'.asked = g.asked)
    (hans : g'.answers = g.answers) : Current g' whom req job := by
  obtain ⟨a, ha, hlive, hask, hwhom⟩ := h.asked
  refine ⟨h.last.trans hjobs.symm, ?_, a, ha, ?_, ?_, ?_⟩
  · rw [hans]
    exact h.fresh
  · rw [(hids a).1]
    exact hlive
  · rw [hasked]
    exact hask
  · rw [(hids a).2]
    exact hwhom

/-- What a client's state rests on. -/
theorem ClientOk.congr {c : Nat} {x : Client} (h : ClientOk fs g c x) (hpost : g'.post c = g.post c)
    (hasked : ∀ job y, g.asked job = some y → g'.asked job = some y)
    (hpend : ∀ job, Pending fs g job → Pending fs g' job)
    (hans : ∀ y ∈ g.answers, y ∈ g'.answers) : ClientOk fs g' c x := by
  cases h with
  | out => exact .out
  | sending hrun => exact .sending (by rw [hpost]; exact hrun)
  | accepted hrun hask hp =>
    exact .accepted (by rw [hpost]; exact hrun) (hasked _ _ hask) (hpend _ hp)
  | pending hrecv hask hp =>
    exact .pending (by rw [hpost]; exact hrecv) (hasked _ _ hask) (hpend _ hp)
  | answered hrun hask hx =>
    obtain ⟨y, hy, hmatch⟩ := hx
    refine .answered (by rw [hpost]; exact hrun) (hasked _ _ hask) ⟨y, hans y hy, ?_⟩
    rw [hpost]
    exact hmatch

/-- A step that leaves the logs as they are. -/
theorem FsNetInv.frame (h : FsNetInv fs g) (hids : SameIds g.post g'.post)
    (hjobs : g'.jobs = g.jobs) (hasked : g'.asked = g.asked) (hans : g'.answers = g.answers)
    (hret : g'.returned = g.returned) (hserver : ServerOk fs g')
    (hclient : ∀ c, ClientOk fs g' c (g'.client c))
    (hmember : ∀ c, g'.client c ≠ .out → c < NENV ∧ (g.post c).live = true ∧ c ≠ fs) :
    FsNetInv fs g' where
  ids e he hlive := by
    rw [(hids e).1] at hlive
    rw [(hids e).2]
    exact h.ids e he hlive
  fs_lt := h.fs_lt
  fs_live := by
    rw [(hids fs).1]
    exact h.fs_live
  server := hserver
  client := hclient
  member c hc := by
    rw [(hids c).1]
    exact hmember c hc
  jobs := by
    rw [hans, hjobs]
    exact h.jobs
  asked := by
    rw [hjobs, hasked]
    exact h.asked
  once := by
    rw [hans]
    exact h.once
  returned x hx := by
    rw [hret] at hx
    obtain ⟨hask, y, hy, hmatch⟩ := h.returned x hx
    exact ⟨by rw [hasked]; exact hask, y, by rw [hans]; exact hy, hmatch⟩

/-- A server that is receiving has no request. -/
theorem ServerOk.of_recving (h : ServerOk fs g) (hrecv : (g.post fs).recving = true) :
    g.server = .waiting ∧ (g.post fs).dstva = fsreqVa := by
  cases h with
  | waiting hat _ hdst => exact ⟨hat, hdst⟩
  | ready _ hrun | delivered _ hrun _ | serving _ hrun _ | answering _ hrun _ =>
    cases hrecv.symm.trans hrun

theorem not_pending_of_recving (h : ServerOk fs g) (hrecv : (g.post fs).recving = true) : ¬
    Pending fs g job := by
  obtain ⟨hat, -⟩ := h.of_recving hrecv
  rintro ⟨-, ⟨-, hrun, -⟩ | ⟨whom, req, hs⟩ | ⟨whom, r, pg, perm, hs⟩⟩
  · cases hrecv.symm.trans hrun
  · rw [hat] at hs
    cases hs
  · rw [hat] at hs
    cases hs

/-- The state of the server does not depend on the boxes of others. -/
theorem ServerOk.congr (h : ServerOk fs g) (hids : SameIds g.post g'.post)
    (hrecv : (g'.post fs).recving = (g.post fs).recving)
    (hdst : (g'.post fs).dstva = (g.post fs).dstva) (hfrom : (g'.post fs).from_ = (g.post fs).from_)
    (hvalue : (g'.post fs).value = (g.post fs).value) (hserver : g'.server = g.server)
    (hjobs : g'.jobs = g.jobs) (hasked : g'.asked = g.asked) (hans : g'.answers = g.answers) :
    ServerOk fs g' := by
  cases h with
  | ready hat hrun => exact .ready (hserver.trans hat) (hrecv.trans hrun)
  | waiting hat hr hd => exact .waiting (hserver.trans hat) (hrecv.trans hr) (hdst.trans hd)
  | delivered hat hrun hcur =>
    refine .delivered (hserver.trans hat) (hrecv.trans hrun) ?_
    rw [hfrom, hvalue, hjobs]
    exact hids.current hcur hjobs hasked hans
  | serving hat hrun hcur =>
    exact .serving (hserver.trans hat) (hrecv.trans hrun) (hids.current hcur hjobs hasked hans)
  | answering hat hrun hcur =>
    exact .answering (hserver.trans hat) (hrecv.trans hrun)
      (hids.current hcur hjobs hasked hans)

theorem Pending.congr (h : Pending fs g job) (hjobs : g'.jobs = g.jobs)
    (hserver : g'.server = g.server) (hrecv : (g'.post fs).recving = (g.post fs).recving)
    (hperm : (g'.post fs).perm = (g.post fs).perm) : Pending fs g' job := by
  unfold Pending
  rw [hjobs, hserver, hrecv, hperm]
  exact h

section
variable (h : FsNetInv fs g)
include h

/-- **A request reaches the server**: it becomes the server's only one. -/
theorem FsNetInv.asks
    (ha : a < NENV) (hlive : (g.post a).live = true) (hrecv : (g.post fs).recving = true)
    (hdel : Delivered (g.post a) (g.post fs) value srcva perm b') :
    FsNetInv fs { g with
      post := update g.post fs b'
      jobs := g.jobs + 1
      asked := update g.asked (g.jobs + 1) (some (a, value)) } := by
  have hids : SameIds g.post (update g.post fs b') :=
    sameIds_update hdel.live hdel.id
  have hkeep : ∀ job y, g.asked job = some y →
      update g.asked (g.jobs + 1) (some (a, value)) job = some y := by
    intro job y hy
    rw [update_of_ne ?_]
    · exact hy
    · rintro rfl
      rw [h.asked _ (Nat.lt_succ_self _)] at hy
      cases hy
  have hself : update g.post fs b' fs = b' := update_self _ _ _
  refine ⟨?_, h.fs_lt, ?_, ?_, ?_, ?_, ?_, ?_, h.once, ?_⟩
  · intro e he hl
    rw [(hids e).1] at hl
    rw [(hids e).2]
    exact h.ids e he hl
  · rw [(hids fs).1]
    exact h.fs_live
  · refine .delivered (h.server.of_recving hrecv).1
      ((congrArg Box.recving hself).trans hdel.recving) ⟨rfl, ?_, ?_⟩
    · exact fun x hx => Nat.lt_succ_of_le (h.jobs x hx)
    · refine ⟨a, ha, ?_, ?_, ?_⟩
      · rw [(hids a).1]
        exact hlive
      · show update g.asked (g.jobs + 1) (some (a, value)) (g.jobs + 1)
          = some (a, (update g.post fs b' fs).value)
        rw [update_self, hself, hdel.value]
      · show (update g.post fs b' fs).from_ = (update g.post fs b' a).id
        rw [(hids a).2, hself, hdel.from_]
  · intro c
    by_cases hout : g.client c = .out
    · rw [hout]
      exact .out
    · have hc := h.member c hout
      refine (h.client c).congr (update_of_ne hc.2.2 _ _) hkeep ?_ (fun _ hy => hy)
      -- the server had no request, so no client waits for it
      exact fun job hp => absurd hp (not_pending_of_recving h.server hrecv)
  · intro c hc
    rw [(hids c).1]
    exact h.member c hc
  · exact fun x hx => Nat.le_succ_of_le (h.jobs x hx)
  · intro job hjob
    have hlt : g.jobs + 1 < job := hjob
    show update g.asked (g.jobs + 1) (some (a, value)) job = none
    rw [update_of_ne (by omega)]
    exact h.asked job (by omega)
  · intro x hx
    obtain ⟨hask, hans⟩ := h.returned x hx
    exact ⟨hkeep _ _ hask, hans⟩

/-- **A message reaches a bystander.** -/
theorem FsNetInv.reaches (hfs : e ≠ fs) (hrecv : (g.post e).recving = true) (hfree : ¬ g.Blocked e)
    (hdel : Delivered (g.post a) (g.post e) value srcva perm b') :
    FsNetInv fs { g with post := update g.post e b' } := by
  have hids : SameIds g.post (update g.post e b') := sameIds_update hdel.live hdel.id
  have hother : ∀ i, i ≠ e → update g.post e b' i = g.post i :=
    fun i hi => update_of_ne hi _ _
  have hserver := hother fs (Ne.symm hfs)
  refine h.frame hids rfl rfl rfl rfl ?_ ?_ h.member
  · exact h.server.congr hids (congrArg Box.recving hserver) (congrArg Box.dstva hserver)
      (congrArg Box.from_ hserver) (congrArg Box.value hserver) rfl rfl rfl rfl
  · intro c
    by_cases hce : c = e
    · subst hce
      have hc := h.client c
      cases hat : g.client c with
      | out => exact .out
      | sending type dstva =>
        rw [hat] at hc
        cases hc with
        | sending hrun => cases hrecv.symm.trans hrun
      | accepted type dstva job =>
        rw [hat] at hc
        cases hc with
        | accepted hrun _ _ => cases hrecv.symm.trans hrun
      | blocked type dstva job => exact absurd ⟨type, dstva, job, hat⟩ hfree
    · refine (h.client c).congr (hother c hce) (fun _ _ hy => hy) ?_ (fun _ hy => hy)
      exact fun job hp => hp.congr rfl rfl (congrArg Box.recving hserver)
        (congrArg Box.perm hserver)

/-- The steps of an environment on its own box `c`, which is not the server's,
and on its own place in `fsipc`. -/
theorem FsNetInv.alone {c : Nat} {x : Client} (hfs : c ≠ fs)
    (hl : b.live = (g.post c).live) (hi : b.id = (g.post c).id)
    (hmem : x ≠ .out → c < NENV ∧ (g.post c).live = true)
    (hx : ∀ g', g'.post c = b → g'.asked = g.asked → g'.answers = g.answers →
      (∀ job, Pending fs g job → Pending fs g' job) → ClientOk fs g' c x) :
    FsNetInv fs { g with
      post := update g.post c b
      client := update g.client c x } := by
  have hids : SameIds g.post (update g.post c b) := sameIds_update hl hi
  have hother : ∀ i, i ≠ c → update g.post c b i = g.post i :=
    fun i hi => update_of_ne hi _ _
  have hserver := hother fs (Ne.symm hfs)
  have hpend : ∀ job, Pending fs g job → Pending fs { g with
      post := update g.post c b
      client := update g.client c x } job :=
    fun job hp => hp.congr rfl rfl (congrArg Box.recving hserver) (congrArg Box.perm hserver)
  refine h.frame hids rfl rfl rfl rfl ?_ ?_ ?_
  · exact h.server.congr hids (congrArg Box.recving hserver) (congrArg Box.dstva hserver)
      (congrArg Box.from_ hserver) (congrArg Box.value hserver) rfl rfl rfl rfl
  · intro i
    show ClientOk fs _ i (update g.client c x i)
    by_cases hic : i = c
    · subst hic
      rw [update_self]
      exact hx _ (update_self _ _ _) rfl rfl hpend
    · rw [update_of_ne hic]
      exact (h.client i).congr (hother i hic) (fun _ _ hy => hy) hpend (fun _ hy => hy)
  · intro i
    show update g.client c x i ≠ .out → _
    by_cases hic : i = c
    · subst hic
      rw [update_self]
      exact fun hne => ⟨(hmem hne).1, (hmem hne).2, hfs⟩
    · rw [update_of_ne hic]
      exact h.member i

/-- A step of the server that leaves messages and logs alone. -/
theorem FsNetInv.moves {x : Server} (hl : b.live = (g.post fs).live) (hi : b.id = (g.post fs).id)
    (hx : ServerOk fs { g with post := update g.post fs b, server := x })
    (hpend : ∀ job, Pending fs g job →
      Pending fs { g with post := update g.post fs b, server := x } job) :
    FsNetInv fs { g with post := update g.post fs b, server := x } := by
  refine h.frame (sameIds_update hl hi) rfl rfl rfl rfl hx ?_ h.member
  intro c
  by_cases hout : g.client c = .out
  · rw [hout]
    exact .out
  · exact (h.client c).congr (update_of_ne (h.member c hout).2.2 _ _)
      (fun _ _ hy => hy) hpend (fun _ hy => hy)

/-- **The reply.**  It goes to the client whose request the server has. -/
theorem FsNetInv.replies {whom r pg perm req : Word}
    (hat : g.server = .answering whom r pg perm job) (hcur : Current g whom req job)
    (hrun : (g.post fs).recving = false) (hfind : g.post.find fs whom = some e)
    (hrecv : (g.post e).recving = true)
    (hdel : Delivered (g.post fs) (g.post e) r (orUtop pg) perm b') :
    FsNetInv fs { g with
      post := update g.post e b'
      server := .ready
      answers := ⟨job, r, carried (g.post fs) (g.post e) (orUtop pg)⟩ :: g.answers } := by
  obtain ⟨a, ha, hlive, hask, hwhom⟩ := hcur.asked
  -- the id names the slot of the one who asked
  have hea : e = a := by
    obtain ⟨hx, h0⟩ := h.ids a ha hlive
    unfold Post.find at hfind
    rw [if_neg (by rw [hwhom]; exact h0)] at hfind
    split at hfind
    · cases hfind
    · cases hfind
      rw [hwhom]
      exact hx
  subst hea
  have hfs : e ≠ fs := by
    rintro rfl
    cases hrecv.symm.trans hrun
  have hids : SameIds g.post (update g.post e b') := sameIds_update hdel.live hdel.id
  have hother : ∀ i, i ≠ e → update g.post e b' i = g.post i :=
    fun i hi => update_of_ne hi _ _
  -- a request that is pending is this one
  have honly : ∀ n, Pending fs g n → n = job := by
    rintro n ⟨hn, -⟩
    exact hn.trans hcur.last.symm
  refine ⟨?_, h.fs_lt, ?_, ?_, ?_, ?_, ?_, h.asked, ?_, ?_⟩
  · intro i hi hl
    rw [(hids i).1] at hl
    rw [(hids i).2]
    exact h.ids i hi hl
  · rw [(hids fs).1]
    exact h.fs_live
  · exact .ready rfl ((congrArg Box.recving (hother fs (Ne.symm hfs))).trans hrun)
  · intro c
    have hc := h.client c
    show ClientOk fs _ c (g.client c)
    -- another client's request would be a second one
    have hcase : ∀ {n : Nat} {type : Word}, g.asked n = some (c, type) → Pending fs g n →
      c = e := by
      intro n type hn hp
      rw [honly n hp, hask] at hn
      cases hn
      rfl
    generalize hx : g.client c = x at hc
    cases hc with
    | out => exact .out
    | sending hr =>
      have hce : c ≠ e := by
        rintro rfl
        exact absurd (hrecv.symm.trans hr) (by decide)
      exact .sending ((congrArg Box.recving (hother c hce)).trans hr)
    | accepted hr hn hp =>
      have hce := hcase hn hp
      subst hce
      exact absurd (hrecv.symm.trans hr) (by decide)
    | pending hr hn hp =>
      have hce := hcase hn hp
      have hjob := honly _ hp
      subst hce
      subst hjob
      have hself : update g.post c b' c = b' := update_self _ _ _
      refine .answered ((congrArg Box.recving hself).trans hdel.recving) hn
        ⟨_, List.mem_cons_self, rfl, ?_, ?_⟩
      · exact ((congrArg Box.value hself).trans hdel.value).symm
      · intro q hq
        exact (congrArg Box.got hself).trans (hdel.page q hq)
    | answered hr hn hans =>
      have hce : c ≠ e := by
        rintro rfl
        exact absurd (hrecv.symm.trans hr) (by decide)
      obtain ⟨y, hy, hmatch⟩ := hans
      have hsame := hother c hce
      refine .answered ((congrArg Box.recving hsame).trans hr) hn
        ⟨y, List.mem_cons_of_mem _ hy, ?_⟩
      show _ ∧ y.value = (update g.post e b' c).value ∧
        ∀ q, y.page = some q → (update g.post e b' c).got = some q
      rw [hsame]
      exact hmatch
  · intro c hc
    rw [(hids c).1]
    exact h.member c hc
  · intro x hx
    rcases List.mem_cons.mp hx with rfl | hx
    · exact le_of_eq hcur.last
    · exact h.jobs x hx
  · intro x hx y hy hxy
    rcases List.mem_cons.mp hx with rfl | hx
    · rcases List.mem_cons.mp hy with rfl | hy
      · rfl
      · exact absurd hxy (by have := hcur.fresh y hy; show job ≠ y.job; omega)
    · rcases List.mem_cons.mp hy with rfl | hy
      · exact absurd hxy (by have := hcur.fresh x hx; show x.job ≠ job; omega)
      · exact h.once x hx y hy hxy
  · intro x hx
    obtain ⟨hask', y, hy, hmatch⟩ := h.returned x hx
    exact ⟨hask', y, List.mem_cons_of_mem _ hy, hmatch⟩

end

/-- What a send that returns `r` does to the logs. -/
theorem logRequest_of_ne (hr : r ≠ 0#32) :
    g.logRequest fs a envid value r = g := if_neg fun hc => hr hc.2

theorem logRequest_other (hfind : g.post.find a envid = some e) (he : e ≠ fs) :
    g.logRequest fs a envid value r = g := by
  refine if_neg fun hc => he ?_
  rw [hfind] at hc
  exact Option.some.inj hc.1

theorem logRequest_fs (hfind : g.post.find a envid = some fs) :
    g.logRequest fs a envid value 0#32 = { g with
      jobs := g.jobs + 1
      asked := update g.asked (g.jobs + 1) (some (a, value)) } :=
  if_pos ⟨hfind, rfl⟩

theorem find_id (h : FsNetInv fs g) (c : Nat) : g.post.find c (g.post fs).id = some fs := by
  obtain ⟨hx, h0⟩ := h.ids fs h.fs_lt h.fs_live
  unfold Post.find
  rw [if_neg h0, hx, if_neg]
  rintro (hl | hne)
  · exact absurd (h.fs_live.symm.trans hl) (by decide)
  · exact hne rfl

/-- A client's request, delivered: the client waits for the answer to it. -/
theorem FsNetInv.requests (h : FsNetInv fs g) {c : Nat} {type dstva fsipcbuf : Word}
    (hat : g.client c = .sending type dstva) (hbuf : fsipcbuf < UTOP)
    (hrecv : (g.post fs).recving = true)
    (hdel : Delivered (g.post c) (g.post fs) type fsipcbuf (PTE_P ||| PTE_W ||| PTE_U) b') :
    FsNetInv fs { g with
      post := update g.post fs b'
      client := update g.client c (.accepted type dstva (g.jobs + 1))
      jobs := g.jobs + 1
      asked := update g.asked (g.jobs + 1) (some (c, type)) } := by
  obtain ⟨hc, hlive, hfs⟩ := h.member c (by rw [hat]; exact fun hx => by cases hx)
  have hasks := h.asks hc hlive hrecv hdel
  have hself : update g.post fs b' fs = b' := update_self _ _ _
  have hone := hasks.alone (c := c) (b := update g.post fs b' c)
    (x := .accepted type dstva (g.jobs + 1)) hfs rfl rfl
    (fun _ => ⟨hc, (congrArg Box.live (update_of_ne hfs b' g.post)).trans hlive⟩) ?_
  · rw [update_eq_self] at hone
    exact hone
  intro g' hpost hasked _ hpend
  have hrun : (g.post c).recving = false := by
    have hok := h.client c
    rw [hat] at hok
    cases hok with
    | sending hrun => exact hrun
  refine .accepted ?_ ?_ (hpend _ ⟨rfl, Or.inl ⟨?_, ?_, ?_⟩⟩)
  · rw [hpost, update_of_ne hfs]
    exact hrun
  · rw [hasked]
    exact update_self _ _ _
  · exact (h.server.of_recving hrecv).1
  · exact (congrArg Box.recving hself).trans hdel.recving
  · -- `fsreq` is below `UTOP`, so the server sees the permissions of the page
    have hperm : b'.perm = PTE_P ||| PTE_W ||| PTE_U :=
      hdel.perm hbuf (by rw [(h.server.of_recving hrecv).2]; decide)
    show (update g.post fs b' fs).perm &&& PTE_P ≠ 0#32
    rw [hself, hperm]
    decide

theorem FsNetInv.step (h : FsNetInv fs g) (hstep : NetStep (fun g e => ¬ g.Blocked e) fs g g') :
    FsNetInv fs g' := by
  cases hstep with
  | @pages a m hfree =>
    by_cases hafs : a = fs
    · subst hafs
      have hself : update g.post a { g.post a with page := m } a
        = { g.post a with page := m } := update_self _ _ _
      have hrecv : (update g.post a { g.post a with page := m } a).recving
        = (g.post a).recving := by rw [hself]
      refine h.moves (b := { g.post a with page := m }) (x := g.server) rfl rfl ?_ ?_
      · exact h.server.congr (sameIds_update rfl rfl) hrecv
          ((congrArg Box.dstva hself).trans rfl) ((congrArg Box.from_ hself).trans rfl)
          ((congrArg Box.value hself).trans rfl) rfl rfl rfl rfl
      · exact fun job hp => hp.congr rfl rfl hrecv ((congrArg Box.perm hself).trans rfl)
    · have hone := h.alone (c := a) (b := { g.post a with page := m }) (x := g.client a) hafs
        rfl rfl (fun hne => ⟨(h.member a hne).1, (h.member a hne).2.1⟩) ?_
      · rw [update_eq_self] at hone
        exact hone
      intro g' hpost hasked _ hpend
      have hok := h.client a
      generalize hx : g.client a = x at hok
      cases hok with
      | out => exact .out
      | sending hrun => exact .sending (by rw [hpost]; exact hrun)
      | accepted hrun hask hp =>
        exact .accepted (by rw [hpost]; exact hrun) (by rw [hasked]; exact hask) (hpend _ hp)
      | pending _ _ _ => exact absurd ⟨_, _, _, hx⟩ hfree
      | answered _ _ _ => exact absurd ⟨_, _, _, hx⟩ hfree
  | @send a envid value srcva perm r p' ha hlive _ _ _ hspare hcall =>
    obtain ⟨e, hfind, ⟨hr, rfl⟩ | ⟨rfl, hrecv, b', rfl, hdel⟩⟩ := trySend_spec hcall
    · rw [logRequest_of_ne hr]
      exact h
    · by_cases hefs : e = fs
      · subst hefs
        rw [logRequest_fs hfind]
        exact h.asks ha hlive hrecv hdel
      · rw [logRequest_other hfind hefs]
        exact h.reaches hefs hrecv (hspare e hfind) hdel
  | @recv a dstva hfs hout _ _ =>
    have hone := h.alone (c := a) (b := { g.post a with recving := true, dstva := dstva })
      (x := .out) hfs rfl rfl (fun hne => absurd rfl hne) (fun _ _ _ _ _ => .out)
    rw [← hout, update_eq_self] at hone
    exact hone
  | @call c type dstva hc hlive hfs _ hrun _ =>
    have hone := h.alone (c := c) (b := g.post c) (x := .sending type dstva) hfs rfl rfl
      (fun _ => ⟨hc, hlive⟩) (fun g' hpost _ _ _ => .sending (by rw [hpost]; exact hrun))
    rw [update_eq_self] at hone
    exact hone
  | @request c type dstva fsipcbuf r p' hat hbuf hcall =>
    obtain ⟨e, hfind, ⟨hr, rfl⟩ | ⟨rfl, hrecv, b', rfl, hdel⟩⟩ := trySend_spec hcall
    · rw [logRequest_of_ne hr, if_neg hr]
      exact h
    · obtain rfl : e = fs := Option.some.inj (hfind.symm.trans (find_id h c))
      rw [logRequest_fs hfind, if_pos rfl]
      exact h.requests hat hbuf hrecv hdel
  | @await c type dstva job hat =>
    have hmem := h.member c (by rw [hat]; exact fun hx => by cases hx)
    refine h.alone hmem.2.2 rfl rfl (fun _ => ⟨hmem.1, hmem.2.1⟩) ?_
    intro g' hpost hasked _ hpend
    have hok := h.client c
    rw [hat] at hok
    cases hok with
    | accepted hrun hask hp =>
      exact .pending (by rw [hpost]) (by rw [hasked]; exact hask) (hpend _ hp)
  | @returns c type dstva job hat hrun =>
    have hmem := h.member c (by rw [hat]; exact fun hx => by cases hx)
    have hone := h.alone (c := c) (b := g.post c) (x := .out) hmem.2.2 rfl rfl
      (fun hne => absurd rfl hne) (fun _ _ _ _ _ => .out)
    rw [update_eq_self] at hone
    refine ⟨hone.ids, hone.fs_lt, hone.fs_live, ?_, ?_, hone.member, hone.jobs, hone.asked,
      hone.once, ?_⟩
    · exact hone.server.congr (fun e => ⟨rfl, rfl⟩) rfl rfl rfl rfl rfl rfl rfl rfl
    · intro i
      exact (hone.client i).congr rfl (fun _ _ hy => hy) (fun _ hp => hp) (fun _ hy => hy)
    · intro x hx
      rcases List.mem_cons.mp hx with rfl | hx
      · have hok := h.client c
        rw [hat] at hok
        cases hok with
        | pending hrecv _ _ => cases hrecv.symm.trans hrun
        | answered _ hask hans => exact ⟨hask, hans⟩
      · exact h.returned x hx
  | wait hat =>
    have hself : update g.post fs { g.post fs with recving := true, dstva := fsreqVa } fs
      = { g.post fs with recving := true, dstva := fsreqVa } := update_self _ _ _
    refine h.moves rfl rfl (.waiting rfl (congrArg Box.recving hself)
      (congrArg Box.dstva hself)) ?_
    rintro job ⟨-, ⟨hs, -⟩ | ⟨whom, req, hs⟩ | ⟨whom, r, pg, perm, hs⟩⟩
    · cases hat.symm.trans hs
    · cases hat.symm.trans hs
    · cases hat.symm.trans hs
  | take hat hrun =>
    have hone := h.moves (b := g.post fs) (x := if (g.post fs).perm &&& PTE_P = 0#32 then .ready
      else .serving (g.post fs).from_ (g.post fs).value g.jobs) rfl rfl ?_ ?_
    · rw [update_eq_self] at hone
      exact hone
    · rw [update_eq_self]
      have hok := h.server
      cases hok with
      | delivered _ _ hcur =>
        by_cases hp : (g.post fs).perm &&& PTE_P = 0#32
        · exact .ready (if_pos hp) hrun
        · exact .serving (if_neg hp) hrun ⟨hcur.last, hcur.fresh, hcur.asked⟩
      | waiting _ hrecv _ => cases hrecv.symm.trans hrun
      | ready hs _ | serving hs _ _ | answering hs _ _ =>
        cases hat.symm.trans hs
    · rintro job ⟨hjob, ⟨-, -, hp⟩ | ⟨whom, req, hs⟩ | ⟨whom, r, pg, perm, hs⟩⟩
      · subst hjob
        exact ⟨rfl, Or.inr (Or.inl ⟨_, _, if_neg hp⟩)⟩
      · cases hat.symm.trans hs
      · cases hat.symm.trans hs
  | @handled whom req job r pg perm hat =>
    have hone := h.moves (b := g.post fs) (x := .answering whom r pg perm job) rfl rfl ?_ ?_
    · rw [update_eq_self] at hone
      exact hone
    · rw [update_eq_self]
      have hok := h.server
      cases hok with
      | @serving whom' req' job' hs hrun hcur =>
        rw [hat] at hs
        cases hs
        exact .answering rfl hrun ⟨hcur.last, hcur.fresh, hcur.asked⟩
      | delivered hs _ _ | waiting hs _ _ | ready hs _ | answering hs _ _ =>
        cases hat.symm.trans hs
    · rintro n ⟨hn, ⟨hs, -⟩ | ⟨whom', req', hs⟩ | ⟨whom', r', pg', perm', hs⟩⟩
      · cases hat.symm.trans hs
      · rw [hat] at hs
        cases hs
        exact ⟨hn, Or.inr (Or.inr ⟨_, _, _, _, rfl⟩)⟩
      · cases hat.symm.trans hs
  | @answer whom r pg perm res job p' hat hcall =>
    obtain ⟨e, hfind, ⟨hr, rfl⟩ | ⟨rfl, hrecv, b', rfl, hdel⟩⟩ := trySend_spec hcall
    · rw [hfind]
      dsimp only
      rw [if_neg hr]
      exact h
    · rw [hfind]
      dsimp only
      rw [if_pos rfl]
      have hok := h.server
      cases hok with
      | @answering whom' r' pg' perm' req job' hs hrun hcur =>
        rw [hat] at hs
        cases hs
        exact h.replies hat hcur hrun hfind hrecv hdel
      | delivered hs _ _ | waiting hs _ _ | ready hs _ | serving hs _ _ =>
        cases hat.symm.trans hs

/-- **Every value `fsipc` returns is the server's reply to that request**, and
the page of the reply is mapped at `dstva`, in every run in which no message
goes to a client blocked in `fsipc`, except from the server.  There is one
reply to a request, and the request is the client's own. -/
theorem fsipc_authentic {g₀ : FsNet} (h₀ : FsStart fs g₀)
    (hrun : Relation.ReflTransGen (NetStep (fun g e => ¬ g.Blocked e) fs) g₀ g) :
    ∀ x ∈ g.returned, g.asked x.job = some (x.client, x.type) ∧
      ∃! y, y ∈ g.answers ∧ y.job = x.job ∧ y.value = x.value ∧
        ∀ q, y.page = some q → x.page = some q := by
  have hinv : FsNetInv fs g := by
    induction hrun with
    | refl => exact h₀.inv
    | tail _ hstep ih => exact ih.step hstep
  intro x hx
  obtain ⟨hask, y, hy, hjob, hmatch⟩ := hinv.returned x hx
  refine ⟨hask, y, ⟨hy, hjob, hmatch⟩, ?_⟩
  intro z hz
  exact hinv.once z hz.1 y hy (hz.2.1.trans hjob.symm)

end

/-- The server, a client and a bystander, each with a page at `0x1000`. -/
def trio : FsNet where
  post e :=
    { live := decide (e < 3)
      id := 0x1000#32 ||| BitVec.ofNat 32 e
      recving := false
      dstva := UTOP
      from_ := 0#32
      value := 0#32
      perm := 0#32
      page := fun v => if v = 1 then some (e, PTE_P ||| PTE_W ||| PTE_U) else none }
  client _ := .out
  server := .ready
  jobs := 0
  asked _ := none
  answers := []
  returned := []

theorem trio_start : FsStart 0 trio where
  ids e he hlive := by
    have hlt : e < 3 := of_decide_eq_true hlive
    interval_cases e
    · exact ⟨by decide, by decide⟩
    · exact ⟨by decide, by decide⟩
    · exact ⟨by decide, by decide⟩
  fs_lt := by decide
  fs_live := rfl
  fs_idle := rfl
  out _ := rfl
  server := rfl
  asked _ := rfl
  answers := rfl
  returned := rfl

theorem fsipc_authentic_trio : ∃ g, g.returned ≠ [] ∧
    Relation.ReflTransGen (NetStep (fun g e => ¬ g.Blocked e) 0) trio g ∧
      ∀ x ∈ g.returned, g.asked x.job = some (x.client, x.type) ∧
        ∃! y, y ∈ g.answers ∧ y.job = x.job ∧ y.value = x.value ∧
          ∀ q, y.page = some q → x.page = some q := by
  have hrun : Relation.ReflTransGen (NetStep (fun g e => ¬ g.Blocked e) 0) trio _ :=
    .tail (.tail (.tail (.tail (.tail (.tail (.tail (.single (.wait rfl))
      (.call (c := 1) 3#32 0#32 (by decide) rfl (by decide) rfl rfl rfl))
      (.request (c := 1) rfl (show 0x1000#32 < UTOP by decide) rfl))
      (.await (c := 1) rfl)) (.take rfl rfl)) (.handled 42#32 0#32 0#32 rfl)) (.answer rfl rfl))
      (.returns (c := 1) rfl rfl)
  exact ⟨_, by simp, hrun, fsipc_authentic trio_start hrun⟩

/-- **A message from a bystander is taken for the reply**: the client's `fsipc`
returns 7, which the bystander sent, while the server has answered nothing. -/
theorem fsipc_forged : ∃ g, FsStart 0 trio ∧
    Relation.ReflTransGen (NetStep (fun _ _ => True) 0) trio g ∧ g.answers = [] ∧
      ∃ x ∈ g.returned, x.client = 1 ∧ x.value = 7#32 := by
  have hrun : Relation.ReflTransGen (NetStep (fun _ _ => True) 0) trio _ :=
    .tail (.tail (.tail (.tail (.tail (.single (.wait rfl))
      (.call (c := 1) 3#32 0#32 (by decide) rfl (by decide) rfl rfl rfl))
      (.request (c := 1) rfl (show 0x1000#32 < UTOP by decide) rfl)) (.await (c := 1) rfl))
      (.send (a := 2) (by decide) rfl (by decide) rfl rfl (fun _ _ => trivial)
        (show Post.trySend _ 2 0x1001#32 7#32 UTOP 0#32 = some (0#32, _) from rfl)))
      (.returns (c := 1) rfl rfl)
  exact ⟨_, trio_start, hrun, rfl, _, List.mem_cons_self, rfl, rfl⟩

/-! ## §4. The kernel. -/

section

open Exec

variable {own : Set Nat} {k k' : Kernel} {c : Nat}

/-- What a kernel state says about messages. -/
def postOf (k : Kernel) : Post := fun e =>
  if e < NENV then
    { live := decide ((k.envs e).envStatus ≠ .free)
      id := (k.envs e).envId
      recving := (k.envs e).envIpcRecving
      dstva := (k.envs e).envIpcDstva
      from_ := (k.envs e).envIpcFrom
      value := (k.envs e).envIpcValue
      perm := (k.envs e).envIpcPerm
      page := fun v => if v < pgnum UTOP then space k e v else none }
  else ⟨false, 0#32, false, 0#32, 0#32, 0#32, 0#32, fun _ => none⟩

theorem postOf_find (hc : c < NENV)
    (h : findEnv k c envid false = .ok e) : (postOf k).find c envid = some e ∧ e < NENV := by
  unfold findEnv at h
  unfold Post.find
  by_cases h0 : envid = 0#32
  · rw [if_pos h0] at h ⊢
    cases h
    exact ⟨rfl, hc⟩
  · rw [if_neg h0] at h ⊢
    split at h
    · cases h
    · rename_i hgood
      rw [if_neg (fun hx => absurd hx.1 (by decide))] at h
      cases h
      refine ⟨if_neg ?_, envx_lt envid⟩
      simpa [postOf, envx_lt] using hgood

theorem postOf_sent (hother : ∀ i < NENV, i ≠ e → k'.envs i = k.envs i ∧ ∀ v < pgnum UTOP,
      space k' i v = space k i v)
    (hself : postOf k' e = b) : postOf k' = update (postOf k) e b := by
  funext i
  by_cases hie : i = e
  · rw [hie, update_self]
    exact hself
  · rw [update_of_ne hie]
    unfold postOf
    by_cases hi : i < NENV
    · obtain ⟨henv, hsp⟩ := hother i hi hie
      rw [if_pos hi, if_pos hi, henv]
      congr 1
      funext v
      exact ite_congr rfl (hsp v) fun _ => rfl
    · rw [if_neg hi, if_neg hi]

/-- Nothing of the other environments changes with a message to `e`. -/
theorem IpcSent.other (hsent : IpcSent k k' a e value srcva perm) {i : Nat} (hi : i < NENV)
    (hne : i ≠ e) : k'.envs i = k.envs i ∧ ∀ v < pgnum UTOP, space k' i v = space k i v := by
  cases hsent with
  | plain _ _ henvs hsame =>
    exact ⟨by rw [henvs, update_of_ne hne], hsame i hi⟩
  | page _ _ _ _ _ henvs hup =>
    exact ⟨by rw [henvs, update_of_ne hne],
      fun v hv => (hup i hi v hv).trans (if_neg (fun hc => hne hc.1))⟩

/-- **The kernel's `sys_ipc_try_send` is `trySend`**, as long as it returns and
the memory invariant holds. -/
theorem sysIpcTrySend_post (h : MemInv own k) (hb : Bounded k) (hc : k.curenv = some c)
    (hlive : Live k c) (hcall : sysIpcTrySend envid value srcva perm k = .ok r k') :
    (postOf k).trySend c envid value srcva perm = some (r, postOf k') := by
  obtain ⟨⟨-, e, hfind, hcase⟩, hchk⟩ :=
    wp_ok (sysIpcTrySend_full h hb hc hlive envid value srcva perm) hcall
  obtain ⟨hpost, he⟩ := postOf_find hlive.1 hfind
  have hr : (postOf k e).recving = (k.envs e).envIpcRecving := by simp [postOf, he]
  have hd : (postOf k e).dstva = (k.envs e).envIpcDstva := by simp [postOf, he]
  have hid : (postOf k c).id = (k.envs c).envId := by simp [postOf, hlive.1]
  have hpage : srcva < UTOP → (postOf k c).page (pgnum srcva) = space k c (pgnum srcva) := by
    intro hsrc
    rw [postOf, if_pos hlive.1]
    exact if_pos (pgnum_lt_utop hsrc)
  have hst : (k.envs e).envStatus ≠ .free := (findEnv_live hlive hfind).2
  unfold Post.trySend
  rw [hpost]
  dsimp only
  rw [hr, hd, hid]
  rcases hcase with ⟨rfl, rfl, hno⟩ | ⟨rfl, hyes, hsent⟩
  · rw [if_pos hno]
  rw [if_neg (by rw [hyes]; decide)]
  have hother : ∀ i < NENV, i ≠ e → _ := fun i => hsent.other
  cases hsent with
  | plain hno _ henvs hsame =>
    have hafter : postOf k' = update (postOf k) e
        ((postOf k e).received (k.envs c).envId value 0#32) := by
      refine postOf_sent hother ?_
      unfold postOf
      rw [if_pos he, if_pos he, henvs, update_self]
      simp only [Box.received, Env.received, ne_eq, reduceCtorEq, not_false_eq_true,
        decide_true, hst, Box.mk.injEq, true_and]
      funext v
      exact ite_congr rfl (hsame e he v) fun _ => rfl
    by_cases hsrc : srcva < UTOP
    · obtain ⟨pp, f, hsp, hok, hw⟩ := hchk hsrc e hfind hyes
      rw [if_pos hsrc, hpage hsrc, hsp]
      dsimp only
      rw [if_neg hok, if_neg hw, if_neg (fun hdst => hno ⟨hsrc, hdst⟩), hafter]
    · rw [if_neg hsrc, hafter]
  | @page hsrc hdst pp f _ hfrom _ henvs hup =>
    obtain ⟨pp', f', hsp, hok, hw⟩ := hchk hsrc e hfind hyes
    obtain ⟨rfl, rfl⟩ := Prod.mk.inj (Option.some.inj (hsp.symm.trans hfrom))
    rw [if_pos hsrc, hpage hsrc, hsp]
    dsimp only
    rw [if_neg hok, if_neg hw, if_pos hdst]
    congr 2
    refine (postOf_sent hother ?_).symm
    unfold postOf
    rw [if_pos he, if_pos he, henvs, update_self]
    simp only [Box.received, Env.received, Box.map, ne_eq, reduceCtorEq, not_false_eq_true,
      decide_true, hst, Box.mk.injEq, true_and]
    funext v
    by_cases hv : v = pgnum (k.envs e).envIpcDstva
    · rw [hv, update_self, if_pos (pgnum_lt_utop hdst),
        hup e he _ (pgnum_lt_utop hdst), if_pos ⟨rfl, rfl⟩]
    · rw [update_of_ne hv]
      exact ite_congr rfl (fun hlt => (hup e he v hlt).trans (if_neg fun hx => hv hx.2))
        fun _ => rfl

/-- A page is sent, and arrives. -/
theorem sysIpcTrySend_post_page : ∃ k k', (postOf k 0).recving = true ∧
    sysIpcTrySend 0#32 9#32 (copyVa 0) roPerm k = .ok 0#32 k' ∧
    (postOf k).trySend 0 0#32 9#32 (copyVa 0) roPerm = some (0#32, postOf k') := by
  obtain ⟨own, k, k', ⟨hinv, hb, hcur, hlive⟩, ⟨hrecv, -⟩, hsend⟩ := exists_pageSend
  exact ⟨k, k', hrecv, hsend, sysIpcTrySend_post hinv hb hcur hlive hsend⟩

/-- What `sys_ipc_recv` records before it gives up the CPU is `recv`. -/
theorem ipcBlock_post (hcur : k.curenv = some c) (hlive : Live k c) (dstva : Word) :
    ∃ k', ipcBlock dstva k = .ok () k' ∧ postOf k' = (postOf k).recv c dstva := by
  refine ⟨k.setEnv c { k.envs c with
    envIpcRecving := true, envStatus := .notRunnable, envIpcDstva := dstva }, ?_, ?_⟩
  · unfold ipcBlock
    rw [bind_ok (derefCurenv_ok hcur)]
    rfl
  refine postOf_sent (fun i _ hie => ⟨update_of_ne hie _ _, fun v _ => ?_⟩) ?_
  · unfold space
    simp only [Kernel.setEnv_of_ne _ _ hie]
    rfl
  · unfold postOf
    rw [if_pos hlive.1, if_pos hlive.1, Kernel.setEnv_self]
    simp only [ne_eq, reduceCtorEq, not_false_eq_true, decide_true, hlive.2, Box.mk.injEq, true_and]
    funext v
    simp only [space, Kernel.setEnv_self]
    rfl

end

end Jos
