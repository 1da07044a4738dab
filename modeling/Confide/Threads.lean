import Confide.FileLists
import Confide.Interleaving

/-! Operations of one server that run side by side. Each call is one step; the table of locks gives
every transaction a mutex, and a removal takes the table's entry away after it has given the mutex back. -/
namespace Confide

open Bytes Resumption Resumption.Prog

/-- What the threads of a server share. Mutexes are numbered as they are made. -/
structure Shared where
  world : World
  locks : TransactionId → Option Nat
  made : Nat
  taken : Finset Nat

namespace Shared

def lockFor (s : Shared) (id : TransactionId) : Nat × Shared :=
  match s.locks id with
  | some mutex => (mutex,s)
  | none => (s.made,{ s with locks := Function.update s.locks id (some s.made), made := s.made + 1 })

/-- A mutex that is taken makes the caller wait; every other call is carried out at once. -/
def arbiter [BoostJson] (sha256 : Bytes → Sha256Digest) : Arbiter Svc Shared Env
  | _, .env (.lockFor id), s => some (s.lockFor id)
  | _, .env (.acquire mutex), s => if mutex ∈ s.taken then none else some ((),{ s with taken := insert mutex s.taken })
  | _, .env (.release mutex), s => some ((),{ s with taken := s.taken.erase mutex })
  | _, .env (.eraseLock id), s => some ((),{ s with locks := Function.update s.locks id none })
  | env, c, s => some ((Svc.handle sha256 env c s.world).1,{ s with world := (Svc.handle sha256 env c s.world).2 })

end Shared

/-- The local variables of an operation: the mutex it got for an id, whether it holds it, and what `find`
returned for an id, until the operation itself changes the index. -/
structure Locals where
  mutex : Option (TransactionId × Nat)
  held : Bool
  found : Option (TransactionId × Option Transaction)

namespace Locals

def initial : Locals := ⟨none,false,none⟩

def remember : (c : SvcCall) → c.Reply → Locals → Locals
  | .env (.lockFor id), mutex, _ => ⟨some (id,mutex),false,none⟩
  | .env (.acquire _), _, l => { l with held := true, found := none }
  | .env (.release _), _, _ => initial
  | .find id, tx, l => { l with found := some (id,tx) }
  | .insert _, _, l | .save _, _, l | .remove _, _, l => { l with found := none }
  | _, _, l => l

/-- It has the mutex and has locked it. -/
def Holds (l : Locals) (id : TransactionId) (mutex : Nat) : Prop := l.mutex = some (id,mutex) ∧ l.held = true

end Locals

/-- Operations that run side by side. -/
abbrev Threads := Pool Svc Shared Env Locals (Result Unit × List PendingUpload)

inductive ThreadAct where
  | start (env : Env) (pending : List PendingUpload) (op : Op)
  | call (i : Nat)

namespace Threads

variable (sha256 : Bytes → Sha256Digest) (opts : ServiceOptions)

/-- A thread begins an operation or makes its next call. -/
def step [BoostJson] (p : Threads) : ThreadAct → Threads
  | .start env pending op => p.start ⟨env,.initial,op.program opts pending⟩
  | .call i => p.advance (Shared.arbiter sha256) Locals.remember i

/-- A server that has just started. -/
def idle (w : World) : Threads := ⟨⟨w,fun _ => none,0,∅⟩,[]⟩

/-- A lock leaves the table only while nothing is stored under its id or nobody has its mutex, and an id is inserted
only while everybody who has a mutex of it has the one in the table. -/
def Cautious (p : Threads) : ThreadAct → Prop
  | .start _ _ _ => True
  | .call i => match p.threads[i]?.bind Thread.upcoming with
    | some (.env (.eraseLock id)) =>
      p.shared.world.index.lookup id = none ∨ ∀ t ∈ p.threads, ∀ got ∈ t.memo.mutex, got.1 ≠ id
    | some (.insert tx) => ∀ t ∈ p.threads, ∀ got ∈ t.memo.mutex, got.1 = tx.id → p.shared.locks tx.id = some got.2
    | _ => True

instance (p : Threads) (act : ThreadAct) : Decidable (p.Cautious act) := by
  unfold Cautious
  split
  · infer_instance
  · split <;> infer_instance

end Threads

/-! Every operation takes the lock before it reads what it saves. -/

namespace Locals

/-- What `find` answers has the id it was asked for. -/
def Likely : (c : SvcCall) → c.Reply → Prop
  | .find id, found => ∀ tx ∈ found, tx.id = id
  | _, _ => True

def Step (c : SvcCall) (l : Locals) (reply : c.Reply) (l' : Locals) : Prop := Likely c reply ∧ l' = l.remember c reply

def May : SvcCall → Locals → Prop
  | .env (.lockFor _), l => l.mutex = none
  | .env (.acquire mutex), l => ∃ id, l.mutex = some (id,mutex)
  | .env (.release mutex), l => ∃ id, l.Holds id mutex
  | .save tx, l => (∃ mutex, l.Holds tx.id mutex) ∧ ∃ old, l.found = some (tx.id,some old)
  | .remove id, l => ∃ mutex, l.Holds id mutex
  | _, _ => True

/-- Calls that have nothing to do with locks and transactions. -/
def Neutral : SvcCall → Prop
  | .env (.lockFor _) | .env (.acquire _) | .env (.release _) | .find _ | .insert _ | .save _ | .remove _ => False
  | _ => True

theorem remember_neutral {c : SvcCall} (neutral : Neutral c) (reply : c.Reply) (l : Locals) : l.remember c reply = l := by
  cases c with
  | env c => cases c <;> first | exact absurd neutral id | rfl
  | find | insert | save | remove => exact absurd neutral id
  | _ => rfl

theorem may_neutral {c : SvcCall} (neutral : Neutral c) (l : Locals) : May c l := by
  cases c with
  | env c => cases c <;> first | exact absurd neutral id | trivial
  | find | insert | save | remove => exact absurd neutral id
  | _ => trivial

def Free (l : Locals) : Prop := l.mutex = none

/-- It has locked the transaction and found it. -/
def Reads (id : TransactionId) (mutex : Nat) (l : Locals) : Prop := l.Holds id mutex ∧ ∃ old, l.found = some (id,some old)

/-- From locals with the one property, only allowed calls are made, and the locals end with the other. -/
def Careful (pre : Locals → Prop) (p : Prog Svc α) (post : Locals → Prop) : Prop :=
  ∀ l, pre l → p.Guarantees Step May l fun _ l' => post l'

section Rules

variable {pre mid post : Locals → Prop} {id : TransactionId} {mutex : Nat} {tx : Transaction}

theorem Careful.ret {value : α} (holds : ∀ l, pre l → post l) : Careful pre (Prog.ret value) post := holds

theorem Careful.bind {p : Prog Svc α} {f : α → Prog Svc β} (first : Careful pre p mid)
    (rest : ∀ value, Careful mid (f value) post) : Careful pre (p >>= f) post := fun l holds =>
  (guarantees_bind p f l _).mpr ((first l holds).mono fun value l' between => rest value l' between)

theorem Careful.neutral {p : Prog Svc α} (uses : p.Uses Neutral) : Careful pre p pre := by
  intro l holds
  induction p with
  | ret value => exact holds
  | call c next ih =>
    refine ⟨may_neutral uses.1 l,?_⟩
    rintro reply _ ⟨_,rfl⟩
    rw [remember_neutral uses.1]
    exact ih reply (uses.2 reply)

theorem guarantees_call_bind {c : SvcCall} {f : c.Reply → Prog Svc α} {l : Locals} {ends : α → Locals → Prop} :
    Guarantees Step May (svc c >>= f) l ends ↔
      May c l ∧ ∀ reply, Likely c reply → Guarantees Step May (f reply) (l.remember c reply) ends := by
  constructor
  · exact fun holds => ⟨holds.1,fun reply likely => holds.2 reply _ ⟨likely,rfl⟩⟩
  · rintro ⟨may,rest⟩
    refine ⟨may,?_⟩
    rintro reply _ ⟨likely,rfl⟩
    exact rest reply likely

theorem Careful.withLock {body : Prog Svc α} (inside : ∀ mutex, Careful (·.Holds id mutex) body (·.Holds id mutex)) :
    Careful Free (TransactionService.withLock id body) Free := by
  intro l free
  refine guarantees_call_bind.mpr ⟨free,fun mutex _ => guarantees_call_bind.mpr ⟨⟨id,rfl⟩,fun _ _ => ?_⟩⟩
  refine (guarantees_bind _ _ _ _).mpr ((inside mutex _ ⟨rfl,rfl⟩).mono fun value l' holds => ?_)
  exact guarantees_call_bind.mpr ⟨⟨id,holds⟩,fun _ _ => rfl⟩

theorem Careful.find {f : Option Transaction → Prog Svc β} (missing : Careful (·.Holds id mutex) (f none) post)
    (known : ∀ tx, tx.id = id → Careful (Reads id mutex) (f (some tx)) post) :
    Careful (·.Holds id mutex) (@Bind.bind (Prog Svc) _ (Option Transaction) β (svc (.find id)) f) post := by
  intro l holds
  refine ⟨trivial,?_⟩
  rintro (_ | tx) _ ⟨likely,rfl⟩
  · exact missing _ holds
  · exact known tx (likely tx rfl) _ ⟨holds,tx,rfl⟩

theorem Careful.save (its : tx.id = id) : Careful (Reads id mutex) (svc (.save tx)) (·.Holds id mutex) := by
  subst its
  intro l reads
  refine ⟨⟨⟨mutex,reads.1⟩,reads.2⟩,?_⟩
  rintro _ _ ⟨_,rfl⟩
  exact reads.1

theorem Careful.remove : Careful (·.Holds id mutex) (svc (.remove id)) (·.Holds id mutex) := by
  intro l holds
  refine ⟨⟨mutex,holds⟩,?_⟩
  rintro _ _ ⟨_,rfl⟩
  exact holds

theorem Careful.insert (kept : ∀ l : Locals, pre l → pre { l with found := none }) : Careful pre (svc (.insert tx)) pre := by
  intro l holds
  refine ⟨trivial,?_⟩
  rintro _ _ ⟨_,rfl⟩
  exact kept l holds

/-! The same for operations that may fail: however they end, the locals end with the property. -/

theorem Careful.then {p : SvcM α} {f : α → SvcM β} (first : Careful pre p.run mid)
    (rest : ∀ value, Careful mid (f value).run post) (stop : ∀ l, mid l → post l) : Careful pre (p >>= f).run post := by
  intro l holds
  refine (guarantees_exceptT_bind p f l _).mpr ((first l holds).mono ?_)
  rintro (e | value) l' between
  · exact stop l' between
  · exact rest value l' between

theorem Careful.skip {p : SvcM α} {f : α → SvcM β} (uses : Uses Neutral p.run)
    (rest : ∀ value, Careful pre (f value).run post) (stop : ∀ l, pre l → post l) : Careful pre (p >>= f).run post :=
  (Careful.neutral uses).then rest stop

theorem Careful.findM {f : Option Transaction → SvcM β} (missing : Careful (·.Holds id mutex) (f none).run post)
    (known : ∀ tx, tx.id = id → Careful (Reads id mutex) (f (some tx)).run post) :
    Careful (·.Holds id mutex) (@Bind.bind SvcM _ (Option Transaction) β (ask (.find id)) f).run post :=
  Careful.find (f := fun found => (f found).run) missing known

theorem uses_refuse {bad : Bool} {e : Error} : Uses Neutral (refuse bad e : SvcM Unit).run := by
  unfold refuse
  split <;> trivial

theorem uses_ensure {result : Result α} : Uses Neutral (ensure result : SvcM α).run := trivial

theorem uses_ask {c : SvcCall} (neutral : Neutral c) : Uses Neutral (ask c).run := ⟨neutral,fun _ => trivial⟩

theorem uses_try {c : SvcCall} (neutral : Neutral c) : Uses Neutral (svc c) := ⟨neutral,fun _ => trivial⟩

end Rules

section Operations

variable {id : TransactionId} {mutex : Nat}

theorem Reads.holds {l : Locals} (reads : l.Reads id mutex) : l.Holds id mutex := reads.1

theorem create_careful (opts : ServiceOptions) (caller : Caller) (req : CreateRequest) :
    Careful Free (TransactionService.create opts caller req).run Free := by
  have free : ∀ l : Locals, l.Free → l.Free := fun _ holds => holds
  unfold TransactionService.create
  refine .skip uses_refuse (fun _ => .skip uses_refuse (fun _ => .skip uses_refuse (fun _ => .skip uses_refuse (fun _ =>
    .skip uses_ensure (fun _ => ?_) free) free) free) free) free
  refine .skip (uses_try (c := .env (.checkDestination _ _)) trivial) (fun _ => .skip (uses_ask (c := .env .now) trivial)
    (fun created => .skip uses_ensure (fun expires => ?_) free) free) free
  refine .skip (uses_ask (c := .env .generate) trivial) (fun fresh => ?_) free
  refine .then (p := tryCall _) (.insert fun _ holds => holds) (fun _ => ?_) free
  exact .skip (uses_ask (c := .env (.record _)) trivial) (fun _ => .ret free) free

theorem receive_careful (opts : ServiceOptions) (peer : Caller) (req : ReceiveRequest) :
    Careful Free (TransactionService.receive opts peer req).run Free := by
  have free : ∀ l : Locals, l.Free → l.Free := fun _ holds => holds
  unfold TransactionService.receive
  refine .skip uses_refuse (fun _ => .skip uses_refuse (fun _ => .skip uses_refuse (fun _ => .skip uses_ensure
    (fun _ => .skip (uses_try (c := .env (.checkDestination _ _)) trivial) (fun _ => ?_) free) free) free) free) free
  refine .withLock fun mutex => ?_
  exact .then (p := tryCall _) (.insert fun _ holds => holds) (fun _ => .ret fun _ holds => holds) fun _ holds => holds

theorem Careful.findMutable {caller : Caller} {f : Transaction → SvcM β} {post : Locals → Prop}
    (stop : ∀ l : Locals, l.Holds id mutex → post l)
    (known : ∀ tx, tx.id = id → Careful (Reads id mutex) (f tx).run post) :
    Careful (·.Holds id mutex) (TransactionService.findMutable caller id >>= f).run post := by
  unfold TransactionService.findMutable
  rw [LawfulMonad.bind_assoc]
  refine .findM (.ret stop) fun tx its => ?_
  dsimp only
  rw [LawfulMonad.bind_assoc]
  refine .skip uses_refuse (fun _ => ?_) fun l reads => stop l reads.1
  rw [LawfulMonad.bind_assoc]
  refine .skip uses_ensure (fun _ => ?_) fun l reads => stop l reads.1
  exact known tx its

theorem beginUpload_careful (caller : Caller) (id : TransactionId) (path : RelativePath) :
    Careful Free (TransactionService.beginUpload caller id path).run Free := by
  refine .withLock fun mutex => .findMutable (fun _ holds => holds) fun tx its => ?_
  exact .skip (uses_try (c := .beginUpload _ _) trivial) (fun _ => .ret fun _ => Reads.holds) fun _ => Reads.holds

theorem removeFile_careful (caller : Caller) (id : TransactionId) (path : RelativePath) :
    Careful Free (TransactionService.removeFile caller id path).run Free := by
  refine .withLock fun mutex => .findMutable (fun _ holds => holds) fun tx its => ?_
  refine .skip uses_refuse (fun _ => .skip (uses_try (c := .removeFile _ _) trivial) (fun _ => ?_) fun _ => Reads.holds)
    fun _ => Reads.holds
  exact .then (p := tryCall _) (.save its) (fun _ => .neutral (uses_ask trivial)) fun _ holds => holds

theorem checkFiles_neutral (id : TransactionId) (files : List FileEntry) :
    Uses Neutral (TransactionService.checkFiles id files).run := by
  induction files with
  | nil => trivial
  | cons entry rest ih =>
    exact Uses.exceptT_bind (uses_try (c := .hashFile _ _) trivial) fun _ => Uses.exceptT_bind uses_refuse fun _ => ih

theorem commit_careful (caller : Caller) (id : TransactionId) : Careful Free (TransactionService.commit caller id).run Free := by
  refine .then (p := TransactionService.locked id _) (.withLock fun mutex => ?_)
    (fun tx => .skip (uses_ask (c := .env (.onCommitted _)) trivial) (fun _ => .ret fun _ holds => holds) fun _ holds => holds)
    fun _ holds => holds
  refine .findM (.ret fun _ holds => holds) fun tx its => ?_
  refine .skip uses_refuse (fun _ => .skip uses_ensure (fun _ => .skip (checkFiles_neutral id tx.files) (fun _ => ?_)
    fun _ => Reads.holds) fun _ => Reads.holds) fun _ => Reads.holds
  refine .skip (uses_ask (c := .env .now) trivial) (fun now => .skip (uses_try (c := .saveManifest _) trivial) (fun _ => ?_)
    fun _ => Reads.holds) fun _ => Reads.holds
  refine .then (p := tryCall _) (.save its) (fun _ => ?_) fun _ holds => holds
  exact .skip (uses_ask (c := .env (.record _)) trivial) (fun _ => .ret fun _ holds => holds) fun _ holds => holds

theorem markDelivered_careful (id : TransactionId) : Careful Free (TransactionService.markDelivered id).run Free := by
  refine .withLock fun mutex => .findM (.ret fun _ holds => holds) fun tx its => ?_
  refine .skip uses_ensure (fun _ => .skip (uses_ask (c := .env .now) trivial) (fun now => ?_) fun _ => Reads.holds)
    fun _ => Reads.holds
  exact .then (p := tryCall _) (.save its) (fun _ => .neutral (uses_ask trivial)) fun _ holds => holds

theorem setRetention_careful (opts : ServiceOptions) (admin : Caller) (id : TransactionId) (days : Int) :
    Careful Free (TransactionService.setRetention opts admin id days).run Free := by
  refine .skip uses_refuse (fun _ => .skip uses_refuse (fun _ => ?_) fun _ holds => holds) fun _ holds => holds
  refine .withLock fun mutex => .findM (.ret fun _ holds => holds) fun tx its => ?_
  refine .skip uses_refuse (fun _ => .skip uses_ensure (fun expires => ?_) fun _ => Reads.holds) fun _ => Reads.holds
  refine .then (p := tryCall _) (.save its) (fun _ => ?_) fun _ holds => holds
  exact .skip (uses_ask (c := .env (.record _)) trivial) (fun _ => .ret fun _ holds => holds) fun _ holds => holds

theorem markExpired_careful {tx : Transaction} (its : tx.id = id) :
    Careful (Reads id mutex) (TransactionService.markExpired tx).run (·.Holds id mutex) := by
  unfold TransactionService.markExpired
  split
  · exact .ret fun _ => Reads.holds
  · refine .skip uses_ensure (fun _ => ?_) fun _ => Reads.holds
    exact .then (p := tryCall _) (.save its) (fun _ => .ret fun _ holds => holds) fun _ holds => holds

theorem destroy_careful (id : TransactionId) (type : BizEventType) (actor : Caller) :
    Careful Free (TransactionService.destroy id type actor).run Free := by
  refine .then (p := TransactionService.locked id _) (.withLock fun mutex => ?_)
    (fun _ => .neutral (uses_ask trivial)) fun _ holds => holds
  refine .findM (.ret fun _ holds => holds) fun tx its => ?_
  refine .then (markExpired_careful its) (fun tx' => ?_) fun _ holds => holds
  exact .then (p := tryCall _) .remove (fun _ => .neutral (uses_ask trivial)) fun _ holds => holds

theorem adminDelete_careful (admin : Caller) (id : TransactionId) :
    Careful Free (TransactionService.adminDelete admin id).run Free := by
  unfold TransactionService.adminDelete
  split
  · exact destroy_careful id .adminDeleted admin
  · exact .ret fun _ holds => holds

theorem finishUpload_careful (p : PendingUpload) (expected : Option Sha256Digest) :
    Careful Free (TransactionService.finishUpload p expected) Free := by
  refine .withLock fun mutex => .find (.ret fun _ holds => holds) fun tx its => ?_
  dsimp only
  split
  · exact .ret fun _ => Reads.holds
  refine .bind (.neutral (uses_try (c := .commitUpload _ _) trivial)) fun reply => ?_
  split
  · exact .ret fun _ => Reads.holds
  refine .bind (.save its) fun saved => ?_
  split
  · exact .ret fun _ holds => holds
  · exact .bind (.neutral (uses_try (c := .env (.record _)) trivial)) fun _ => .ret fun _ holds => holds

theorem writeUpload_careful (p : PendingUpload) (chunk : Bytes) :
    Careful Free (TransactionService.writeUpload p chunk) Free :=
  .bind (.neutral (uses_try (c := .writeUpload _ _) trivial)) fun _ => .ret fun _ holds => holds

theorem dropUpload_careful (p : PendingUpload) : Careful Free (TransactionService.dropUpload p) Free := by
  unfold TransactionService.dropUpload
  split
  · exact .ret fun _ holds => holds
  · exact .bind (.neutral (uses_try (c := .discardUpload _) trivial)) fun _ => .ret fun _ holds => holds

/-- The text of every operation takes the lock before it reads what it saves, and gives it back. -/
theorem program_careful (opts : ServiceOptions) (pending : List PendingUpload) (op : Op) :
    Careful Free (op.program opts pending) Free := by
  have reported {α : Type} {p : SvcM α} (careful : Careful Free p.run Free) : Careful Free (report pending p) Free :=
    .bind careful fun _ => .ret fun _ holds => holds
  cases op with
  | create caller req => exact reported (create_careful opts caller req)
  | beginUpload caller id path =>
    refine .bind (beginUpload_careful caller id path) fun begun => ?_
    cases begun <;> exact .ret fun _ holds => holds
  | writeUpload k chunk =>
    unfold Op.program
    dsimp only
    split
    · exact .ret fun _ holds => holds
    · exact .bind (writeUpload_careful _ chunk) fun _ => .ret fun _ holds => holds
  | finishUpload k expected =>
    unfold Op.program
    dsimp only
    split
    · exact .ret fun _ holds => holds
    · exact .bind (finishUpload_careful _ expected) fun _ => .ret fun _ holds => holds
  | dropUpload k =>
    unfold Op.program
    dsimp only
    split
    · exact .ret fun _ holds => holds
    · exact .bind (dropUpload_careful _) fun _ => .ret fun _ holds => holds
  | removeFile caller id path => exact reported (removeFile_careful caller id path)
  | commit caller id => exact reported (commit_careful caller id)
  | receive peer req => exact reported (receive_careful opts peer req)
  | markDelivered id => exact reported (markDelivered_careful id)
  | setRetention admin id days => exact reported (setRetention_careful opts admin id days)
  | expire id => exact reported (destroy_careful id .expired TransactionService.system)
  | adminDelete admin id => exact reported (adminDelete_careful admin id)

end Operations

end Locals

/-! What holds in between: a mutex has one holder, whoever has a mutex of a stored transaction has the one in the table,
and whoever has locked and found a transaction has found what is stored. -/

structure Guarded (s : Shared) (ls : List Locals) : Prop where
  keyed : Keyed s.world.index
  taken : ∀ l ∈ ls, ∀ id mutex, l.Holds id mutex → mutex ∈ s.taken
  apart : ∀ (i j : Nat) (l l' : Locals) id id' mutex, ls[i]? = some l → ls[j]? = some l' → l.Holds id mutex →
    l'.Holds id' mutex → i = j
  current : ∀ l ∈ ls, ∀ id mutex, l.mutex = some (id,mutex) → s.world.index.lookup id ≠ none → s.locks id = some mutex
  read : ∀ l ∈ ls, ∀ id mutex tx, l.Holds id mutex → l.found = some (id,some tx) → s.world.index.lookup id = some tx

section Guarded

variable {s : Shared} {ls : List Locals} {l : Locals} {i : Nat} {id : TransactionId} {mutex : Nat} {w : World}

theorem idle_guarded (keyed : Keyed w.index) : Guarded (Threads.idle w).shared [] :=
  ⟨keyed,by simp,by simp,by simp,by simp⟩

theorem Guarded.started (guarded : Guarded s ls) : Guarded s (ls ++ [.initial]) := by
  have old : ∀ l ∈ ls ++ [.initial], l.mutex ≠ none → l ∈ ls := by
    intro l member has
    rcases List.mem_append.mp member with old | new
    · exact old
    · rw [List.mem_singleton.mp new] at has
      exact absurd rfl has
  have lower : ∀ (i : Nat) (l : Locals), (ls ++ [.initial])[i]? = some l → l.mutex ≠ none → ls[i]? = some l := by
    intro i l here has
    rw [List.getElem?_append] at here
    split at here
    · exact here
    · have := List.mem_of_getElem? here
      rw [List.mem_singleton.mp this] at has
      exact absurd rfl has
  refine ⟨guarded.keyed,?_,?_,?_,?_⟩
  · exact fun l member id mutex holds => guarded.taken l (old l member (by simp [holds.1])) id mutex holds
  · exact fun i j l l' id id' mutex here there holds holds' => guarded.apart i j l l' id id' mutex
      (lower i l here (by simp [holds.1])) (lower j l' there (by simp [holds'.1])) holds holds'
  · exact fun l member id mutex has => guarded.current l (old l member (by simp [has])) id mutex has
  · exact fun l member id mutex tx holds => guarded.read l (old l member (by simp [holds.1])) id mutex tx holds

/-- Two threads cannot both hold a lock of a stored transaction. -/
theorem Guarded.alone (guarded : Guarded s ls) {j : Nat} {l' : Locals} {mutex' : Nat} (here : ls[i]? = some l)
    (there : ls[j]? = some l') (holds : l.Holds id mutex) (holds' : l'.Holds id mutex')
    (stored : s.world.index.lookup id ≠ none) : i = j := by
  have first := guarded.current l (List.mem_of_getElem? here) id mutex holds.1 stored
  have second := guarded.current l' (List.mem_of_getElem? there) id mutex' holds'.1 stored
  obtain rfl : mutex = mutex' := Option.some.inj (first.symm.trans second)
  exact guarded.apart i j l l' id id mutex here there holds holds'

/-- A thread that is another one after a step was there before. -/
theorem getElem?_set_cases {x : Locals} {j : Nat} {l' : Locals} (there : (ls.set i x)[j]? = some l') :
    (j = i ∧ l' = x) ∨ (j ≠ i ∧ ls[j]? = some l') := by
  by_cases same : j = i
  · subst same
    rw [List.getElem?_set_self'] at there
    obtain ⟨_,_,rfl⟩ := Option.map_eq_some_iff.mp there
    exact .inl ⟨rfl,rfl⟩
  · rw [List.getElem?_set_ne (Ne.symm same)] at there
    exact .inr ⟨same,there⟩

theorem mem_set_cases {x l' : Locals} (member : l' ∈ ls.set i x) : l' = x ∨ ∃ j, j ≠ i ∧ ls[j]? = some l' := by
  obtain ⟨j,there⟩ := List.getElem?_of_mem member
  rcases getElem?_set_cases there with ⟨_,rfl⟩ | ⟨other,there⟩
  · exact .inl rfl
  · exact .inr ⟨j,other,there⟩

/-- A thread that writes what it has locked, or inserts what was not there, takes nothing from the others. -/
theorem Guarded.write (guarded : Guarded s ls) (here : ls[i]? = some l) (keyed : Keyed w.index)
    (others : ∀ other ≠ id, w.index.lookup other = s.world.index.lookup other)
    (mine : s.world.index.lookup id = none ∨ ∃ mutex, l.Holds id mutex)
    (current : w.index.lookup id ≠ none → s.world.index.lookup id = none → ∀ l ∈ ls, ∀ mutex,
      l.mutex = some (id,mutex) → s.locks id = some mutex) :
    Guarded { s with world := w } (ls.set i { l with found := none }) := by
  have before : ∀ (j : Nat) (l' : Locals), (ls.set i { l with found := none })[j]? = some l' →
      ∃ l'' : Locals, ls[j]? = some l'' ∧ l''.mutex = l'.mutex ∧ l''.held = l'.held := by
    intro j l' there
    rcases getElem?_set_cases there with ⟨rfl,rfl⟩ | ⟨_,there⟩
    · exact ⟨l,here,rfl,rfl⟩
    · exact ⟨l',there,rfl,rfl⟩
  refine ⟨keyed,?_,?_,?_,?_⟩
  · intro l' member id' mutex' holds
    obtain ⟨j,there⟩ := List.getElem?_of_mem member
    obtain ⟨l'',was,same,held⟩ := before j l' there
    exact guarded.taken l'' (List.mem_of_getElem? was) id' mutex' ⟨same.trans holds.1,held.trans holds.2⟩
  · intro j k l₁ l₂ id₁ id₂ mutex' first second holds₁ holds₂
    obtain ⟨l₁',was₁,same₁,held₁⟩ := before j l₁ first
    obtain ⟨l₂',was₂,same₂,held₂⟩ := before k l₂ second
    exact guarded.apart j k l₁' l₂' id₁ id₂ mutex' was₁ was₂ ⟨same₁.trans holds₁.1,held₁.trans holds₁.2⟩
      ⟨same₂.trans holds₂.1,held₂.trans holds₂.2⟩
  · intro l' member id' mutex' has stored
    obtain ⟨j,there⟩ := List.getElem?_of_mem member
    obtain ⟨l'',was,same,_⟩ := before j l' there
    have member' := List.mem_of_getElem? was
    by_cases its : id' = id
    · subst its
      by_cases absent : s.world.index.lookup id' = none
      · exact current stored absent l'' member' mutex' (same.trans has)
      · exact guarded.current l'' member' id' mutex' (same.trans has) absent
    · exact guarded.current l'' member' id' mutex' (same.trans has) (others id' its ▸ stored)
  · intro l' member id' mutex' tx holds found
    rcases mem_set_cases member with rfl | ⟨j,other,there⟩
    · contradiction
    · have was := guarded.read l' (List.mem_of_getElem? there) id' mutex' tx holds found
      by_cases its : id' = id
      · subst its
        rcases mine with absent | ⟨mutex,own⟩
        · rw [absent] at was
          contradiction
        · exact absurd (guarded.alone here there own holds (by simp [was])).symm other
      · exact (others id' its).trans was

theorem Guarded.unindexed (guarded : Guarded s ls) (same : w.index = s.world.index) : Guarded { s with world := w } ls := by
  obtain ⟨keyed,taken,apart,current,read⟩ := guarded
  rw [← same] at keyed current read
  exact ⟨keyed,taken,apart,current,read⟩

/-- What a thread changes of its locals is of no concern to the others unless it locks something. -/
theorem Guarded.local {s' : Shared} {x : Locals} (guarded : Guarded s ls) (same : s'.world = s.world)
    (taken : ∀ j l', j ≠ i → ls[j]? = some l' → ∀ id mutex, l'.Holds id mutex → mutex ∈ s'.taken)
    (current : ∀ l' ∈ ls, ∀ id mutex, l'.mutex = some (id,mutex) → s.world.index.lookup id ≠ none → s'.locks id = some mutex)
    (mine : ∀ id mutex, x.mutex = some (id,mutex) → s.world.index.lookup id ≠ none → s'.locks id = some mutex)
    (held : ∀ id mutex, x.Holds id mutex → mutex ∈ s'.taken ∧
      ∀ j l', j ≠ i → ls[j]? = some l' → ∀ id', ¬ l'.Holds id' mutex)
    (read : ∀ id mutex tx, x.Holds id mutex → x.found = some (id,some tx) → s.world.index.lookup id = some tx) :
    Guarded s' (ls.set i x) := by
  refine ⟨same ▸ guarded.keyed,?_,?_,?_,?_⟩
  · intro l' member id' mutex' holds
    rcases mem_set_cases member with rfl | ⟨j,other,there⟩
    · exact (held id' mutex' holds).1
    · exact taken j l' other there id' mutex' holds
  · intro j k l₁ l₂ id₁ id₂ mutex' first second holds₁ holds₂
    rcases getElem?_set_cases first with ⟨rfl,rfl⟩ | ⟨other₁,there₁⟩
    · rcases getElem?_set_cases second with ⟨rfl,rfl⟩ | ⟨other₂,there₂⟩
      · rfl
      · exact absurd holds₂ ((held id₁ mutex' holds₁).2 k l₂ other₂ there₂ id₂)
    · rcases getElem?_set_cases second with ⟨rfl,rfl⟩ | ⟨other₂,there₂⟩
      · exact absurd holds₁ ((held id₂ mutex' holds₂).2 j l₁ other₁ there₁ id₁)
      · exact guarded.apart j k l₁ l₂ id₁ id₂ mutex' there₁ there₂ holds₁ holds₂
  · intro l' member id' mutex' has stored
    rw [same] at stored
    rcases mem_set_cases member with rfl | ⟨j,_,there⟩
    · exact mine id' mutex' has stored
    · exact current l' (List.mem_of_getElem? there) id' mutex' has stored
  · intro l' member id' mutex' tx holds found
    rw [same]
    rcases mem_set_cases member with rfl | ⟨j,_,there⟩
    · exact read id' mutex' tx holds found
    · exact guarded.read l' (List.mem_of_getElem? there) id' mutex' tx holds found

variable {sha256 : Bytes → Sha256Digest} {env : Env}

section

variable (guarded : Guarded s ls)
include guarded

theorem Guarded.lockFor (id : TransactionId) :
    Guarded (s.lockFor id).2 (ls.set i (l.remember (.env (.lockFor id)) (s.lockFor id).1)) := by
  unfold Shared.lockFor
  split
  · rename_i mutex there
    refine guarded.local rfl (fun j l' _ at_ => guarded.taken l' (List.mem_of_getElem? at_)) guarded.current ?_
      (fun _ _ holds => absurd holds.2 Bool.false_ne_true) fun _ _ _ holds => absurd holds.2 Bool.false_ne_true
    rintro _ _ ⟨⟩ _
    exact there
  · rename_i free
    refine guarded.local rfl (fun j l' _ at_ => guarded.taken l' (List.mem_of_getElem? at_)) ?_ ?_
      (fun _ _ holds => absurd holds.2 Bool.false_ne_true) fun _ _ _ holds => absurd holds.2 Bool.false_ne_true
    · intro l' member id' mutex' has stored
      have listed := guarded.current l' member id' mutex' has stored
      have other : id' ≠ id := by
        rintro rfl
        rw [free] at listed
        contradiction
      exact (Function.update_of_ne other _ _).trans listed
    · rintro _ _ ⟨⟩ _
      exact Function.update_self ..

theorem Guarded.own (here : ls[i]? = some l) (id : TransactionId) (mutex : Nat)
    (holds : l.Holds id mutex) : mutex ∈ s.taken ∧ ∀ j l', j ≠ i → ls[j]? = some l' → ∀ id', ¬ l'.Holds id' mutex := by
  refine ⟨guarded.taken l (List.mem_of_getElem? here) id mutex holds,?_⟩
  exact fun j l' other there id' holds' => other (guarded.apart j i l' l id' id mutex there here holds' holds)

theorem Guarded.acquire (here : ls[i]? = some l) (free : mutex ∉ s.taken)
    (may : l.May (.env (.acquire mutex))) :
    Guarded { s with taken := insert mutex s.taken } (ls.set i (l.remember (.env (.acquire mutex)) ())) := by
  obtain ⟨id,has⟩ := may
  refine guarded.local rfl (fun j l' _ there id' mutex' holds => ?_) guarded.current ?_ ?_ fun _ _ _ _ found => nomatch found
  · exact Finset.mem_insert_of_mem (guarded.taken l' (List.mem_of_getElem? there) id' mutex' holds)
  · exact guarded.current l (List.mem_of_getElem? here)
  · intro id' mutex' holds
    obtain ⟨rfl,rfl⟩ := Prod.mk.inj (Option.some.inj (has.symm.trans holds.1))
    refine ⟨Finset.mem_insert_self ..,?_⟩
    exact fun j l' _ there id' holds' => free (guarded.taken l' (List.mem_of_getElem? there) id' mutex holds')

theorem Guarded.release (here : ls[i]? = some l) (may : l.May (.env (.release mutex))) :
    Guarded { s with taken := s.taken.erase mutex } (ls.set i (l.remember (.env (.release mutex)) ())) := by
  obtain ⟨id,holds⟩ := may
  refine guarded.local rfl (fun j l' other there id' mutex' holds' => ?_) guarded.current (fun _ _ has => nomatch has)
    (fun _ _ holds => nomatch holds.1) fun _ _ _ holds => nomatch holds.1
  refine Finset.mem_erase.mpr ⟨?_,guarded.taken l' (List.mem_of_getElem? there) id' mutex' holds'⟩
  rintro rfl
  exact (guarded.own here id mutex' holds).2 j l' other there id' holds'

theorem Guarded.eraseLock (here : ls[i]? = some l)
    (erasing : s.world.index.lookup id = none ∨ ∀ l ∈ ls, ∀ mutex, l.mutex ≠ some (id,mutex)) :
    Guarded { s with locks := Function.update s.locks id none } (ls.set i l) := by
  have left : ∀ l' ∈ ls, ∀ id' mutex', l'.mutex = some (id',mutex') → s.world.index.lookup id' ≠ none →
      Function.update s.locks id none id' = some mutex' := by
    intro l' member id' mutex' has stored
    have other : id' ≠ id := by
      rintro rfl
      rcases erasing with absent | nobody
      · exact stored absent
      · exact nobody l' member mutex' has
    exact (Function.update_of_ne other _ _).trans (guarded.current l' member id' mutex' has stored)
  have self := List.mem_of_getElem? here
  exact guarded.local rfl (fun j l' _ there => guarded.taken l' (List.mem_of_getElem? there)) left (left l self)
    (guarded.own here) (guarded.read l self)

theorem Guarded.remember (here : ls[i]? = some l) {found : Option (TransactionId × Option Transaction)}
    (right : ∀ id tx, found = some (id,some tx) → s.world.index.lookup id = some tx) :
    Guarded s (ls.set i { l with found := found }) :=
  guarded.local rfl (fun _ l' _ there => guarded.taken l' (List.mem_of_getElem? there)) guarded.current
    (guarded.current l (List.mem_of_getElem? here)) (fun id mutex => guarded.own (l := l) here id mutex)
    fun id _ tx _ => right id tx

/-- A write that fails changes nothing; one that succeeds changes what the thread has locked. -/
theorem Guarded.store (here : ls[i]? = some l) (id : TransactionId)
    (effect : (s.world.index.lookup id = none ∨ ∃ mutex, l.Holds id mutex) ∧ Keyed w.index ∧
      (∀ other ≠ id, w.index.lookup other = s.world.index.lookup other) ∧
      (w.index.lookup id ≠ none → s.world.index.lookup id = none → ∀ l ∈ ls, ∀ mutex,
        l.mutex = some (id,mutex) → s.locks id = some mutex) ∨ w.index = s.world.index) :
    Guarded { s with world := w } (ls.set i { l with found := none }) := by
  rcases effect with ⟨mine,keyed,others,current⟩ | same
  · exact guarded.write here keyed others mine current
  · exact (guarded.remember here fun _ _ none => by contradiction).unindexed same

/-- One call of one thread. -/
theorem Guarded.call [BoostJson] {c : SvcCall} {reply : c.Reply} {s' : Shared} (here : ls[i]? = some l)
    (may : l.May c) (answers : Shared.arbiter sha256 env c s = some (reply,s'))
    (erasing : ∀ id, c = .env (.eraseLock id) → s.world.index.lookup id = none ∨
      ∀ l ∈ ls, ∀ mutex, l.mutex ≠ some (id,mutex))
    (inserting : ∀ tx, c = .insert tx → ∀ l ∈ ls, ∀ mutex, l.mutex = some (tx.id,mutex) → s.locks tx.id = some mutex) :
    Locals.Likely c reply ∧ Guarded s' (ls.set i (l.remember c reply)) := by
  have same : ls.set i l = ls := by
    obtain ⟨short,rfl⟩ := List.getElem?_eq_some_iff.mp here
    exact List.set_getElem_self short
  have effect := handle_effect sha256 env s.world c
  cases c with
  | env c =>
    cases c with
    | lockFor id =>
      obtain ⟨rfl,rfl⟩ := Prod.mk.inj (Option.some.inj answers)
      exact ⟨trivial,guarded.lockFor id⟩
    | acquire mutex =>
      simp only [Shared.arbiter] at answers
      split at answers
      · contradiction
      · rename_i free
        cases answers
        exact ⟨trivial,guarded.acquire here free may⟩
    | release mutex =>
      cases answers
      exact ⟨trivial,guarded.release here may⟩
    | eraseLock id =>
      cases answers
      exact ⟨trivial,guarded.eraseLock here (erasing id rfl)⟩
    | _ =>
      cases answers
      exact ⟨trivial,same.symm ▸ guarded.unindexed effect.1⟩
  | find id =>
    cases answers
    refine ⟨fun tx known => guarded.keyed id tx known,guarded.remember here ?_⟩
    rintro id' tx found
    obtain ⟨rfl,known⟩ := Prod.mk.inj (Option.some.inj found)
    exact known
  | insert tx =>
    cases answers
    refine ⟨trivial,guarded.store here tx.id ?_⟩
    rcases effect with ⟨_,absent,index⟩ | ⟨_,index⟩
    · refine .inl ⟨.inl absent,?_,?_,fun _ _ => inserting tx rfl⟩
      · rw [index]
        exact guarded.keyed.insert rfl
      · intro other apart
        rw [index,Finmap.lookup_insert_of_ne _ apart]
    · exact .inr index
  | save tx =>
    cases answers
    refine ⟨trivial,guarded.store here tx.id ?_⟩
    rcases effect with ⟨_,known,index⟩ | ⟨_,index⟩
    · refine .inl ⟨.inr may.1,?_,?_,fun _ absent => absurd absent known⟩
      · rw [index]
        exact guarded.keyed.insert rfl
      · intro other apart
        rw [index,Finmap.lookup_insert_of_ne _ apart]
    · exact .inr index
  | remove id =>
    cases answers
    refine ⟨trivial,guarded.store here id ?_⟩
    rcases effect with ⟨_,index⟩ | ⟨_,index⟩
    · refine .inl ⟨.inr may,?_,?_,?_⟩
      · rw [index]
        exact guarded.keyed.erase id
      · intro other apart
        rw [index,Finmap.lookup_erase_ne apart]
      · intro left
        rw [index,Finmap.lookup_erase] at left
        exact absurd rfl left
    · exact .inr index
  | findIf | saveManifest | hashFile | removeFile | openRead =>
    cases answers
    exact ⟨trivial,same.symm ▸ guarded.unindexed effect⟩
  | beginUpload | writeUpload | commitUpload | discardUpload =>
    cases answers
    exact ⟨trivial,same.symm ▸ guarded.unindexed effect.1⟩

end

end Guarded

namespace Threads

variable {sha256 : Bytes → Sha256Digest} {opts : ServiceOptions}

/-- Every thread is careful from here on, and what they know of the locks and the index is right. -/
def Safe (p : Threads) : Prop :=
  p.Sound (fun _ => Locals.Step) (fun _ => Locals.May) (fun _ _ l => l.Free) fun s ls => Guarded s (ls.map (·.2))

theorem idle_safe {w : World} (keyed : Keyed w.index) : (idle w).Safe := ⟨by simp [idle],idle_guarded keyed⟩

theorem step_safe [BoostJson] {p : Threads} {act : ThreadAct} (safe : p.Safe) (cautious : p.Cautious act) :
    (p.step sha256 opts act).Safe := by
  cases act with
  | start env pending op =>
    refine Pool.Sound.start safe (Locals.program_careful opts pending op _ rfl) ?_
    rw [List.map_append]
    exact safe.fits.started
  | call i =>
    refine Pool.Sound.advance safe fun t c next reply shared makes may => ?_
    have here : ((p.threads.map fun t => (t.context,t.memo)).map (·.2))[i]? = some t.memo := by
      simp [makes.here]
    have threads : ∀ l ∈ (p.threads.map fun t => (t.context,t.memo)).map (·.2), ∃ t ∈ p.threads, t.memo = l := by
      simp
    have upcoming : p.threads[i]?.bind Thread.upcoming = some c := by rw [makes.here]; exact makes.upcoming
    simp only [Cautious,upcoming] at cautious
    have keeps := Guarded.call safe.fits here may makes.answers
    obtain ⟨likely,guarded⟩ := keeps (by
        rintro id rfl
        refine cautious.imp_right fun nobody l member mutex has => ?_
        obtain ⟨t',member',rfl⟩ := threads l member
        exact nobody t' member' (id,mutex) has rfl) (by
        rintro tx rfl l member mutex has
        obtain ⟨t',member',rfl⟩ := threads l member
        exact cautious t' member' (tx.id,mutex) has rfl)
    exact ⟨⟨likely,rfl⟩,by rwa [List.map_set]⟩

end Threads

/-- From any storage directory that the server starts on, with any number of threads and in any order of their calls: if
locks leave the table and ids are inserted as said above, a transaction is saved only while what is stored is what the
same operation has found. -/
theorem saves_overwrite_what_was_read [BoostJson] (sha256 : Bytes → Sha256Digest) (opts : ServiceOptions) (env : Env) (disk : Disk)
    (started : (exec env restart.run (World.boot disk)).1 = .ok ()) (acts : List ThreadAct)
    (cautious : Runs.Along (Threads.step sha256 opts) Threads.Cautious (.idle (exec env restart.run (World.boot disk)).2) acts) :
    let p := Runs.run (Threads.step sha256 opts) (.idle (exec env restart.run (World.boot disk)).2) acts
    ∀ t ∈ p.threads, ∀ tx, t.upcoming = some (.save tx) →
      t.memo.found = some (tx.id,p.shared.world.index.lookup tx.id) := by
  intro p t member tx upcoming
  have safe : p.Safe := cautious.invariant Threads.Safe (fun _ _ safe cautious => Threads.step_safe safe cautious)
    (Threads.idle_safe (restart_searchable started []).keyed)
  obtain ⟨⟨mutex,holds⟩,old,found⟩ := safe.allows member upcoming
  have memory : t.memo ∈ (p.threads.map fun t => (t.context,t.memo)).map (·.2) := by
    simpa using ⟨t,member,rfl⟩
  rw [found,safe.fits.read t.memo memory tx.id mutex old holds found]

/-! A commit of a transaction that has just arrived, and a removal that overlaps with four other operations. -/
namespace Sample

def gamma : Caller := ⟨ascii "gamma",true,false⟩

def operator : Caller := ⟨ascii "root",false,true⟩

def announced : ReceiveRequest := ⟨Sample.id,ascii "alice",ascii "bob",1750000000,1752592000,[]⟩

def calls (i n : Nat) : List ThreadAct := List.replicate n (.call i)

/-- A commit waits until the retention has been changed, and a removal waits for the commit. -/
def commitBetween : List ThreadAct :=
  [.start Sample.env [] (.receive gamma announced)] ++ calls 0 5 ++
    [.start Sample.env [] (.commit gamma Sample.id),.start Sample.env [] (.setRetention operator Sample.id 10)] ++
    calls 2 3 ++ calls 1 2 ++ calls 2 3 ++ calls 1 3 ++ [.start Sample.env [] (.expire Sample.id)] ++ calls 3 2 ++ calls 1 1

/-- The transaction is removed and arrives again; the old lock leaves the table while one operation holds it, and
another operation gets a new lock. -/
def lockErasedLate : List ThreadAct :=
  [.start Sample.env [] (.receive gamma announced)] ++ calls 0 5 ++
    [.start Sample.env [] (.expire Sample.id)] ++ calls 1 7 ++
    [.start Sample.env [] (.receive gamma announced)] ++ calls 2 5 ++
    [.start Sample.env [] (.setRetention operator Sample.id 10)] ++ calls 3 3 ++ calls 1 1 ++
    [.start Sample.env [] (.commit gamma Sample.id)] ++ calls 4 9

def ended (acts : List ThreadAct) : Threads :=
  Runs.run (Threads.step Sample.sha256 Sample.opts) (.idle (exec Sample.env restart.run (World.boot emptyDisk)).2) acts

/-- A thread is about to save a transaction, and this holds of it. -/
def savesWith (p : Threads) (i : Nat) (test : Threads → Locals → Transaction → Bool) : Bool :=
  p.threads[i]?.any fun t => match t.upcoming with
    | some (.save tx) => test p t.memo tx
    | _ => false

theorem savesWith_iff {p : Threads} {i : Nat} {test : Threads → Locals → Transaction → Bool} :
    savesWith p i test = true ↔ ∃ t tx, p.threads[i]? = some t ∧ t.upcoming = some (.save tx) ∧ test p t.memo tx = true := by
  unfold savesWith
  cases here : p.threads[i]? with
  | none => simp
  | some t =>
    simp only [Option.any_some,Option.some.injEq]
    constructor
    · intro saves
      split at saves
      · rename_i tx upcoming
        exact ⟨t,tx,rfl,upcoming,saves⟩
      · contradiction
    · rintro ⟨_,tx,rfl,upcoming,holds⟩
      rw [upcoming]
      exact holds

end Sample

theorem commit_saves_what_it_found : ∃ t ∈ (Sample.ended Sample.commitBetween).threads, ∃ tx, t.upcoming = some (.save tx) ∧
    t.memo.found = some (tx.id,(Sample.ended Sample.commitBetween).shared.world.index.lookup tx.id) := by
  have saves : Sample.savesWith (Sample.ended Sample.commitBetween) 1 (fun _ _ _ => true) = true := by decide +kernel
  obtain ⟨t,tx,here,upcoming,_⟩ := Sample.savesWith_iff.mp saves
  have started : (exec Sample.env restart.run (World.boot emptyDisk)).1 = .ok () := by decide +kernel
  have cautious : Runs.Along (Threads.step Sample.sha256 Sample.opts) Threads.Cautious
      (.idle (exec Sample.env restart.run (World.boot emptyDisk)).2) Sample.commitBetween := by decide +kernel
  have holds := saves_overwrite_what_was_read Sample.sha256 Sample.opts Sample.env emptyDisk started
    Sample.commitBetween cautious
  dsimp only at holds
  rw [← Sample.ended] at holds
  have member := List.mem_of_getElem? here
  exact ⟨t,member,tx,upcoming,holds t member tx upcoming⟩

/-- The change of the retention is about to save what it read before the commit; once it has, the commit is undone. -/
theorem retention_undoes_commit :
    (¬ ∀ t ∈ (Sample.ended Sample.lockErasedLate).threads, ∀ tx, t.upcoming = some (.save tx) →
      t.memo.found = some (tx.id,(Sample.ended Sample.lockErasedLate).shared.world.index.lookup tx.id)) ∧
    ((Sample.ended Sample.lockErasedLate).shared.world.index.lookup Sample.id).map (·.state) = some .committed ∧
    ((Sample.ended (Sample.lockErasedLate ++ Sample.calls 3 1)).shared.world.index.lookup Sample.id).map (·.state) =
      some .open := by
  have saves : Sample.savesWith (Sample.ended Sample.lockErasedLate) 3
      (fun p l tx => decide (l.found ≠ some (tx.id,p.shared.world.index.lookup tx.id))) = true := by decide +kernel
  obtain ⟨t,tx,here,upcoming,stale⟩ := Sample.savesWith_iff.mp saves
  refine ⟨fun fresh => ?_,by decide +kernel,by decide +kernel⟩
  exact of_decide_eq_true stale (fresh t (List.mem_of_getElem? here) tx upcoming)

end Confide
