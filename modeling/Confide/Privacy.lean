import Confide.Endurance
import Confide.Handlers
import Confide.SideBySide

/-! What a user can tell about the transactions of others. Two states that show the user the same
transactions answer every request of that user alike, unless it names a transaction that one of them holds
and the other does not. -/
namespace Confide

open Bytes Resumption Resumption.Prog DirTree

variable {sha256 : Bytes → Sha256Digest} {opts : ServiceOptions} {options : HandlerOptions} {env : Env}
  {ctx : RequestContext} {id : TransactionId} {pair : Option (Nat × Nat)} {w w' : World} {α β γ : Type} {caller : Caller}

/-! The service, in two worlds that agree on the transaction it is asked about. -/

section

variable [BoostJson]

/-- Two programs of the service that do alike. -/
abbrev Matching (sha256 : Bytes → Sha256Digest) (env : Env) (id : TransactionId) (p q : Prog Svc α) : Prop :=
  Twin (Svc.handle sha256 env) (Agree id none) p q (Same (Agree id none))

theorem matching_ret (value : α) : Matching sha256 env id (Prog.ret value) (Prog.ret value) :=
  Twin.ret fun _ _ agree => ⟨rfl,agree⟩

theorem Matching.bindM {p q : SvcM α} {f g : α → SvcM γ} (first : Matching sha256 env id p.run q.run)
    (rest : ∀ a, Matching sha256 env id (f a).run (g a).run) : Matching sha256 env id (p >>= f).run (q >>= g).run :=
  Twin.same_exceptT_bind first (fun _ _ _ agree => ⟨rfl,agree⟩) rest

theorem matching_refuse (bad : Bool) (e : Error) :
    Matching sha256 env id (refuse bad e : SvcM Unit).run (refuse bad e : SvcM Unit).run := by
  unfold refuse
  split <;> exact matching_ret _

/-- What the rest of the process answers does not depend on the transactions. -/
theorem env_twin (c : EnvCall) :
    Twin (Svc.handle sha256 env) (Agree id pair) (svc (.env c)) (svc (.env c)) (Same (α := c.Reply) (Agree id pair)) := by
  constructor
  intro w w' agree
  cases c <;> exact ⟨rfl,agree.entry,agree.named,agree.disks⟩

theorem matching_ask (c : EnvCall) : Matching sha256 env id (ask (.env c)).run (ask (.env c)).run := Twin.same_lift (env_twin c)

theorem find_twin {f g : Option Transaction → Prog Svc γ} {after : γ → γ → World → World → Prop}
    (absent : Twin (Svc.handle sha256 env) (Agree id pair) (f none) (g none) after)
    (known : ∀ tx, tx.id = id → Twin (Svc.handle sha256 env) (Agree id pair) (f (some tx)) (g (some tx)) after) :
    Twin (Svc.handle sha256 env) (Agree id pair) (svc (.find id) >>= f) (svc (.find id) >>= g) after := by
  constructor
  intro w w' agree
  rw [run_bind,run_bind]
  change after (Prog.run _ (f (w.index.lookup id)) w).1 (Prog.run _ (g (w'.index.lookup id)) w').1
    (Prog.run _ (f (w.index.lookup id)) w).2 (Prog.run _ (g (w'.index.lookup id)) w').2
  rw [← agree.entry]
  cases found : w.index.lookup id with
  | none => exact absent.ends w w' agree
  | some tx => exact (known tx (agree.named tx found)).ends w w' agree

theorem matching_find {f g : Option Transaction → SvcM γ} (absent : Matching sha256 env id (f none).run (g none).run)
    (known : ∀ tx, tx.id = id → Matching sha256 env id (f (some tx)).run (g (some tx)).run) :
    Matching sha256 env id (@bind SvcM _ (Option Transaction) γ (ask (.find id)) f).run
      (@bind SvcM _ (Option Transaction) γ (ask (.find id)) g).run := find_twin absent known

end

variable {after : α → α → World → World → Prop}

/-- A call that the store carries out in the folder of the transaction, after entering a stage. -/
theorem entered_twin {stage : Stage} {p q : Prog Sys α} (twin : Twin (Sys.handle env) (Abreast id pair) p q after) :
    Twin (Sys.handle env) (Agree id pair) (sys (.enter stage) >>= fun _ => p) (sys (.enter stage) >>= fun _ => q) after := by
  constructor
  intro w w' agree
  exact twin.ends _ _ (agree.enter stage)

theorem Alike.agree {p q : Prog Sys α} (alike : Alike env id pair p q) :
    Twin (Sys.handle env) (Abreast id pair) p q (Same (Agree id pair)) :=
  alike.mono (fun _ _ abreast => abreast) fun _ _ _ _ ends => ⟨ends.1,ends.2.toAgree⟩

theorem enteredM_twin {stage : Stage} {p q : SysM α} (alike : Alike env id none p.run q.run) :
    Twin (Sys.handle env) (Agree id none) (call (.enter stage) >>= fun _ => p).run (call (.enter stage) >>= fun _ => q).run
      (Same (Agree id none)) := entered_twin alike.agree

variable {tx : Transaction}

section

variable [BoostJson]

theorem matching_save (own : tx.id = id) :
    Matching sha256 env id (tryCall (svc (.save tx))).run (tryCall (svc (.save tx))).run := by
  subst own
  have saves : Twin (Sys.handle env) (Agree tx.id none) (implement sha256 (.save tx)) (implement sha256 (.save tx))
      (Same (Agree tx.id none)) := by
    apply enteredM_twin
    apply Alike.bindM (alike_call alike_indexFind)
    intro known
    apply Alike.bindM (alike_refuse _ _)
    intro _
    apply Alike.bindM (writeDocument_alike env sha256 _ _)
    intro _
    exact alike_call (alike_indexSet rfl)
  exact ⟨saves.ends⟩

theorem matching_saveManifest (own : tx.id = id) :
    Matching sha256 env id (tryCall (svc (.saveManifest tx))).run (tryCall (svc (.saveManifest tx))).run := by
  subst own
  have saves : Twin (Sys.handle env) (Agree tx.id none) (implement sha256 (.saveManifest tx))
      (implement sha256 (.saveManifest tx)) (Same (Agree tx.id none)) := by
    apply enteredM_twin
    exact writeDocument_alike env sha256 _ _
  exact ⟨saves.ends⟩

theorem matching_removeFile (path : RelativePath) :
    Matching sha256 env id (tryCall (svc (.removeFile id path))).run (tryCall (svc (.removeFile id path))).run := by
  have removes : Twin (Sys.handle env) (Agree id none) (implement sha256 (.removeFile id path))
      (implement sha256 (.removeFile id path)) (Same (Agree id none)) := entered_twin (removeFile_alike path).agree
  exact ⟨removes.ends⟩

theorem matching_hashFile (path : RelativePath) :
    Matching sha256 env id (tryCall (svc (.hashFile id path))).run (tryCall (svc (.hashFile id path))).run :=
  ⟨(hashFile_twin env sha256 path).ends⟩

theorem matching_openRead (path : RelativePath) :
    Matching sha256 env id (tryCall (svc (.openRead id path))).run (tryCall (svc (.openRead id path))).run :=
  ⟨(openRead_twin env path).ends⟩

theorem withLock_twin {body body' : Prog Svc α} {before : World → World → Prop}
    (twin : Twin (Svc.handle sha256 env) before body body' after) :
    Twin (Svc.handle sha256 env) before (TransactionService.withLock id body) (TransactionService.withLock id body') after := by
  constructor
  intro w w' here
  rw [run_withLock,run_withLock]
  exact twin.ends w w' here

theorem matching_locked {body body' : SvcM α} (matching : Matching sha256 env id body.run body'.run) :
    Matching sha256 env id (TransactionService.locked id body).run (TransactionService.locked id body').run :=
  withLock_twin matching

theorem matching_get (caller : Caller) :
    Matching sha256 env id (TransactionService.get caller id).run (TransactionService.get caller id).run := by
  apply Matching.bindM (matching_ask .isRecipient)
  intro isRecipient
  apply matching_find (matching_ret _)
  intro tx _
  dsimp only
  split <;> exact matching_ret _

theorem matching_openDownload (caller : Caller) (path : RelativePath) :
    Matching sha256 env id (TransactionService.openDownload caller id path).run
      (TransactionService.openDownload caller id path).run := by
  apply Matching.bindM (matching_ask .isRecipient)
  intro isRecipient
  apply matching_find (matching_ret _)
  intro tx _
  apply Matching.bindM (matching_refuse _ _)
  intro _
  apply Matching.bindM (matching_ret _)
  intro _
  apply Matching.bindM (matching_refuse _ _)
  intro _
  exact matching_openRead path

/-- What is found is the transaction of that id. -/
theorem findMutable_twin {f g : Transaction → SvcM γ} {after : Result γ → Result γ → World → World → Prop}
    (stop : ∀ e w w', Agree id none w w' → after (.error e) (.error e) w w')
    (known : ∀ tx, tx.id = id → Twin (Svc.handle sha256 env) (Agree id none) (f tx).run (g tx).run after) :
    Twin (Svc.handle sha256 env) (Agree id none) (TransactionService.findMutable caller id >>= f).run
      (TransactionService.findMutable caller id >>= g).run after := by
  have found : Twin (Svc.handle sha256 env) (Agree id none) (TransactionService.findMutable caller id).run
      (TransactionService.findMutable caller id).run
      (Paired (fun tx tx' w w' => tx = tx' ∧ tx.id = id ∧ Agree id none w w') (Agree id none)) := by
    apply find_twin
    · exact Twin.ret fun _ _ agree => ⟨rfl,agree⟩
    intro tx own
    apply Twin.same_exceptT_bind (matching_refuse _ _)
    · exact fun e w w' agree => ⟨rfl,agree⟩
    intro _
    apply Twin.same_exceptT_bind (matching_ret (requireMutable tx.state))
    · exact fun e w w' agree => ⟨rfl,agree⟩
    intro _
    exact Twin.ret fun _ _ agree => ⟨rfl,own,agree⟩
  apply Twin.exceptT_bind found stop
  intro tx tx'
  constructor
  intro w w' here
  obtain ⟨rfl,own,agree⟩ := here
  exact (known tx own).ends w w' agree

theorem matching_removal (caller : Caller) (path : RelativePath) :
    Matching sha256 env id (TransactionService.removeFile caller id path).run
      (TransactionService.removeFile caller id path).run := by
  apply matching_locked
  apply findMutable_twin (fun e w w' agree => ⟨rfl,agree⟩)
  intro tx own
  apply Matching.bindM (matching_refuse _ _)
  intro _
  apply Matching.bindM (matching_removeFile path)
  intro _
  apply Matching.bindM (matching_save (by exact own))
  intro _
  exact matching_ask _

theorem matching_checkFiles (files : List FileEntry) :
    Matching sha256 env id (TransactionService.checkFiles id files).run (TransactionService.checkFiles id files).run := by
  induction files with
  | nil => exact matching_ret _
  | cons entry rest ih =>
    apply Matching.bindM (matching_hashFile entry.path)
    intro actual
    apply Matching.bindM (matching_refuse _ _)
    intro _
    exact ih

theorem matching_commit (caller : Caller) :
    Matching sha256 env id (TransactionService.commit caller id).run (TransactionService.commit caller id).run := by
  apply Matching.bindM (p := TransactionService.locked id _) (matching_locked _)
  · intro tx
    apply Matching.bindM (matching_ask _)
    intro _
    exact matching_ret _
  apply matching_find (matching_ret _)
  intro tx own
  apply Matching.bindM (matching_refuse _ _)
  intro _
  apply Matching.bindM (matching_ret _)
  intro _
  apply Matching.bindM (matching_checkFiles tx.files)
  intro _
  apply Matching.bindM (matching_ask .now)
  intro now
  apply Matching.bindM (matching_saveManifest (by exact own))
  intro _
  apply Matching.bindM (matching_save (by exact own))
  intro _
  apply Matching.bindM (matching_ask _)
  intro _
  exact matching_ret _

/-- An upload of one caller in two worlds. -/
inductive Ongoing (id : TransactionId) (caller : Caller) : PendingUpload → PendingUpload → World → World → Prop
  | intro {n m : Nat} {u u' : Upload} {w w' : World} (counterpart : Counterpart id n m u u')
    (agree : Agree id (some (n,m)) w w') : Ongoing id caller ⟨id,caller,u⟩ ⟨id,caller,u'⟩ w w'

theorem Ongoing.twin {f g : PendingUpload → Prog Svc α} (steps : ∀ n m u u', Counterpart id n m u u' →
      Twin (Svc.handle sha256 env) (Agree id (some (n,m))) (f ⟨id,caller,u⟩) (g ⟨id,caller,u'⟩) after)
    (pending pending' : PendingUpload) :
    Twin (Svc.handle sha256 env) (Ongoing id caller pending pending') (f pending) (g pending') after := by
  constructor
  intro w w' ongoing
  cases ongoing with
  | intro counterpart agree => exact (steps _ _ _ _ counterpart).ends _ _ agree

/-- It is over in both worlds, or ongoing in both. -/
def Released (id : TransactionId) (caller : Caller) (pending pending' : PendingUpload) (w w' : World) : Prop :=
  (pending.upload.done = true ∧ pending'.upload.done = true ∧ Agree id none w w') ∨ Ongoing id caller pending pending' w w'

theorem beginUpload_twin (caller : Caller) (path : RelativePath) :
    Twin (Svc.handle sha256 env) (Agree id none) (TransactionService.beginUpload caller id path).run
      (TransactionService.beginUpload caller id path).run (Paired (Ongoing id caller) (Agree id none)) := by
  have folder : transactionDir id <+: (payloadPath id path).dropLast := by
    rw [payloadPath_dropLast]
    exact files_in_folder id _
  have begins : Twin (Sys.handle env) (Agree id none) (implement sha256 (.beginUpload id path))
      (implement sha256 (.beginUpload id path)) (Paired (Begun id) (Abreast id none)) :=
    entered_twin (beginWrite_alike _ folder path)
  apply withLock_twin
  apply findMutable_twin
  · exact fun e w w' agree => ⟨rfl,agree⟩
  intro tx own
  have begins : Twin (Svc.handle sha256 env) (Agree id none) (tryCall (svc (.beginUpload id path))).run
      (tryCall (svc (.beginUpload id path))).run (Paired (Begun id) (Abreast id none)) := ⟨begins.ends⟩
  apply Twin.exceptT_bind begins
  · exact fun e w w' abreast => ⟨rfl,abreast.toAgree⟩
  intro u u'
  refine Twin.ret fun w w' begun => ?_
  obtain ⟨n,m,counterpart,abreast⟩ := begun
  exact .intro counterpart abreast.toAgree

omit [BoostJson] in
theorem Begun.ongoing {u u' : Upload} (begun : Begun id u u' w w') : Ongoing id caller ⟨id,caller,u⟩ ⟨id,caller,u'⟩ w w' := by
  obtain ⟨n,m,counterpart,abreast⟩ := begun
  exact .intro counterpart abreast.toAgree

theorem writeUpload_twin (chunk : Bytes) (pending pending' : PendingUpload) :
    Twin (Svc.handle sha256 env) (Ongoing id caller pending pending') (TransactionService.writeUpload pending chunk)
      (TransactionService.writeUpload pending' chunk) (Equally (Ongoing id caller)) := by
  revert pending pending'
  apply Ongoing.twin
  intro n m u u' counterpart
  have writes : Twin (Svc.handle sha256 env) (Agree id (some (n,m))) (svc (.writeUpload u chunk))
      (svc (.writeUpload u' chunk)) (Equally (Begun id)) :=
    ⟨fun w w' agree => (write_alike chunk u u').ends _ _ ⟨n,m,counterpart,agree.enter _⟩⟩
  apply Twin.shared_bind writes
  intro written u u'
  exact Twin.ret fun w w' begun => ⟨rfl,begun.ongoing⟩

theorem writeBody_twin (broken : Option Error) (parts : List Bytes) (pending pending' : PendingUpload) :
    Twin (Svc.handle sha256 env) (Ongoing id caller pending pending') (TransactionHandlers.writeBody broken parts pending)
      (TransactionHandlers.writeBody broken parts pending') (Equally (Ongoing id caller)) := by
  induction parts generalizing pending pending' with
  | nil =>
    cases broken with
    | none => exact Twin.ret fun w w' ongoing => ⟨rfl,ongoing⟩
    | some e => exact Twin.ret fun w w' ongoing => ⟨rfl,ongoing⟩
  | cons part parts ih =>
    apply Twin.shared_bind (writeUpload_twin part pending pending')
    intro written pending pending'
    cases written with
    | error e => exact Twin.ret fun w w' ongoing => ⟨rfl,ongoing⟩
    | ok => exact ih pending pending'

theorem dropUpload_twin (pending pending' : PendingUpload) :
    Twin (Svc.handle sha256 env) (Released id caller pending pending') (TransactionService.dropUpload pending)
      (TransactionService.dropUpload pending') fun _ _ w w' => Agree id none w w' := by
  constructor
  intro w w' released
  unfold TransactionService.dropUpload
  rcases released with ⟨ended,ended',agree⟩ | ongoing
  · simpa [ended,ended'] using agree
  cases ongoing with
  | intro counterpart agree =>
    rename_i n m u u'
    have same : u'.done = u.done := by rw [counterpart.other]
    dsimp only
    rw [same]
    split
    · exact agree.forget
    · have spent := (discard_alike env counterpart).ends _ _ (agree.enter .discardUpload)
      obtain ⟨_,_,_,_,abreast⟩ := spent
      exact abreast.toAgree.forget

theorem finishUpload_twin (expected : Option Sha256Digest) (pending pending' : PendingUpload) :
    Twin (Svc.handle sha256 env) (Ongoing id caller pending pending') (TransactionService.finishUpload pending expected)
      (TransactionService.finishUpload pending' expected) (Equally (Released id caller)) := by
  revert pending pending'
  apply Ongoing.twin
  intro n m u u' counterpart
  apply withLock_twin
  apply find_twin
  · exact Twin.ret fun w w' agree => ⟨rfl,.inr (.intro counterpart agree)⟩
  intro tx own
  dsimp only
  cases requireMutable tx.state with
  | error e => exact Twin.ret fun w w' agree => ⟨rfl,.inr (.intro counterpart agree)⟩
  | ok _ =>
    have commits : Twin (Svc.handle sha256 env) (Agree id (some (n,m))) (svc (.commitUpload u expected))
        (svc (.commitUpload u' expected)) (Equally (Spent id)) :=
      ⟨fun w w' agree => (commit_alike sha256 expected u u').ends _ _ ⟨n,m,counterpart,agree.enter _⟩⟩
    apply Twin.shared_bind commits
    intro committed u u'
    constructor
    intro w w' spent
    obtain ⟨ended,n,m,counterpart,abreast⟩ := spent
    have ended' : u'.done = true := by rw [counterpart.other]; exact ended
    refine Twin.ends ?_ w w' abreast.toAgree.forget
    cases committed with
    | error e => exact Twin.ret fun w w' agree => ⟨rfl,.inl ⟨ended,ended',agree⟩⟩
    | ok stored =>
      apply Twin.same_bind (matching_save (by exact own))
      intro saved
      cases saved with
      | error e => exact Twin.ret fun w w' agree => ⟨rfl,.inl ⟨ended,ended',agree⟩⟩
      | ok _ =>
        apply Twin.same_bind (env_twin _)
        intro _
        exact Twin.ret fun w w' agree => ⟨rfl,.inl ⟨ended,ended',agree⟩⟩

theorem receiveBody_twin (expected : Option Sha256Digest) (pending pending' : PendingUpload) :
    Twin (Svc.handle sha256 env) (Ongoing id caller pending pending') (TransactionHandlers.receiveBody ctx expected pending)
      (TransactionHandlers.receiveBody ctx expected pending') (Same (Agree id none)) := by
  have drop : ∀ (result : Result FileEntry) (pending pending' : PendingUpload),
      Twin (Svc.handle sha256 env) (Released id caller pending pending')
        (TransactionService.dropUpload pending >>= fun _ => pure result)
        (TransactionService.dropUpload pending' >>= fun _ => pure result) (Same (Agree id none)) := by
    intro result pending pending'
    apply Twin.bind (dropUpload_twin pending pending')
    intro _ _
    exact Twin.ret fun w w' agree => ⟨rfl,agree⟩
  apply Twin.shared_bind (writeBody_twin _ _ pending pending')
  intro written pending pending'
  cases written with
  | error e => exact (drop (.error e) pending pending').mono (fun _ _ ongoing => .inr ongoing) fun _ _ _ _ ends => ends
  | ok _ =>
    apply Twin.shared_bind (finishUpload_twin expected pending pending')
    intro entry pending pending'
    exact drop entry pending pending'

/-! What a request for a transaction that is not there, or not for the caller, comes to. -/

/-- The service refuses the caller with this error. -/
inductive Blocked (caller : Caller) (recipient : Bytes → Bytes → Bool) (id : TransactionId) (w : World) : Error → Prop
  | absent (unknown : w.index.lookup id = none) : Blocked caller recipient id w (notFound id)
  | hidden {tx : Transaction} (known : w.index.lookup id = some tx) (closed : mayRead caller tx recipient = false) :
    Blocked caller recipient id w (forbidden id)

/-- The program ends with this error. -/
abbrev Ends (sha256 : Bytes → Sha256Digest) (env : Env) (w : World) (e : Error) (p : SvcM α) : Prop :=
  Leads (Svc.handle sha256 env) p w fun result _ => result = .error e

end

variable {recipient : Bytes → Bytes → Bool}

section

variable [BoostJson]

section Blocked

variable {e : Error}

theorem Ends.bind {p : SvcM α} {f : α → SvcM β} (ends : Ends sha256 env w e p) : Ends sha256 env w e (p >>= f) := by
  rw [Ends,leads_bind]
  apply ends.mono
  rintro result w' rfl
  rfl

theorem Ends.locked {body : SvcM α} (ends : Ends sha256 env w e body) :
    Ends sha256 env w e (TransactionService.locked id body) := leads_locked.mpr ends

theorem Blocked.find (blocked : Blocked caller recipient id w e)
    {f : Option Transaction → SvcM β} (absent : f none = throw (notFound id))
    (hidden : ∀ tx, mayRead caller tx recipient = false → Ends sha256 env w (forbidden id) (f (some tx))) :
    Ends sha256 env w e (@bind SvcM _ (Option Transaction) β (ask (.find id)) f) := by
  rw [Ends,leads_find_bind]
  cases blocked with
  | absent unknown =>
    rw [unknown,absent]
    rfl
  | hidden known closed =>
    rw [known]
    exact hidden _ closed

omit [BoostJson] in
theorem mayWrite_of_not_mayRead
    (closed : mayRead caller tx recipient = false) : mayWrite caller tx = false := by
  simp only [mayRead,Bool.or_eq_false_iff] at closed
  simp only [mayWrite,Bool.or_eq_false_iff]
  exact closed.1

theorem ends_refuse {bad : Bool} {f : Unit → SvcM β} (holds : bad = true) : Ends sha256 env w e (refuse bad e >>= f) := by
  rw [holds]
  rfl

theorem ends_isRecipient {f : (Bytes → Bytes → Bool) → SvcM β} (ends : Ends sha256 env w e (f env.recipient)) :
    Ends sha256 env w e (@bind SvcM _ (Bytes → Bytes → Bool) β (ask (.env .isRecipient)) f) := leads_lift_bind.mpr ends

variable (blocked : Blocked caller env.recipient id w e)
include blocked

theorem get_blocked : Ends sha256 env w e (TransactionService.get caller id) := by
  apply ends_isRecipient
  apply blocked.find rfl
  intro tx closed
  simp only [closed,Bool.false_eq_true,if_false]
  rfl

theorem openDownload_blocked (path : RelativePath) :
    Ends sha256 env w e (TransactionService.openDownload caller id path) := by
  apply ends_isRecipient
  apply blocked.find rfl
  intro tx closed
  exact ends_refuse (by simpa using closed)

theorem findMutable_blocked : Ends sha256 env w e (TransactionService.findMutable caller id) := by
  apply blocked.find rfl
  intro tx closed
  exact ends_refuse (by simpa using mayWrite_of_not_mayRead closed)

theorem commit_blocked : Ends sha256 env w e (TransactionService.commit caller id) := by
  apply Ends.bind
  apply Ends.locked
  apply blocked.find rfl
  intro tx closed
  exact ends_refuse (by simpa using mayWrite_of_not_mayRead closed)

end Blocked

namespace TransactionHandler

open TransactionHandlers

/-- The transaction about which a request comes to ask the service. -/
def consults (ctx : RequestContext) : TransactionHandler → Option TransactionId
  | .get | .listFiles | .commit => (idParam ctx).toOption
  | .download | .removeFile => do
    let id ← (idParam ctx).toOption
    let _path ← (pathParam ctx).toOption
    return id
  | .upload => do
    let id ← (idParam ctx).toOption
    let _path ← (pathParam ctx).toOption
    let _expected ← (expectedDigest ctx).toOption
    return id
  | .create | .list | .receive => none

end TransactionHandler

/-- A program that is refused before it asks the service, or asks about one transaction. -/
def Asks (ctx : RequestContext) (p : SvcM Response) : Option TransactionId → Prop
  | none => ∃ e, p.run = Prog.ret (.error e)
  | some id => ∀ sha256 env, Matching sha256 env id p.run p.run ∧
    ∀ w e, Blocked ctx.caller env.recipient id w e → Ends sha256 env w e p

theorem asks_ensure {result : Result α} {f : α → SvcM Response} {next : α → Option TransactionId}
    (rest : ∀ value, Asks ctx (f value) (next value)) : Asks ctx (ensure result >>= f) (result.toOption.bind next) := by
  cases result with
  | error e => exact ⟨e,rfl⟩
  | ok value => exact rest value

theorem asks_get (respond : Transaction → Response) (id : TransactionId) :
    Asks ctx (do let tx ← TransactionService.get ctx.caller id; pure (respond tx)) (some id) := by
  intro sha256 env
  constructor
  · apply Matching.bindM (matching_get ctx.caller)
    intro tx
    exact matching_ret _
  · intro w e blocked
    exact (get_blocked blocked).bind

theorem handler_asks {fn : TransactionHandler} (one : fn ∉ [.create,.list,.receive]) :
    Asks ctx (fn.run opts options ctx) (fn.consults ctx) := by
  have whole : ∀ {α : Type} (result : Result α), result.toOption = result.toOption.bind some := fun _ => by simp
  cases fn with
  | create | list | receive => simp at one
  | get =>
    rw [TransactionHandler.consults,whole]
    apply asks_ensure
    intro id
    exact asks_get _ id
  | listFiles =>
    rw [TransactionHandler.consults,whole]
    apply asks_ensure
    intro id
    exact asks_get _ id
  | commit =>
    rw [TransactionHandler.consults,whole]
    apply asks_ensure
    intro id sha256 env
    constructor
    · apply Matching.bindM (matching_commit ctx.caller)
      intro tx
      exact matching_ret _
    · intro w e blocked
      exact (commit_blocked blocked).bind
  | removeFile =>
    apply asks_ensure
    intro id
    apply asks_ensure
    intro path sha256 env
    constructor
    · apply Matching.bindM (matching_removal ctx.caller path)
      intro _
      exact matching_ret _
    · intro w e blocked
      exact (Ends.locked (findMutable_blocked blocked).bind).bind
  | download =>
    apply asks_ensure
    intro id
    apply asks_ensure
    intro path sha256 env
    constructor
    · apply Matching.bindM (matching_openDownload ctx.caller path)
      intro file
      apply Matching.bindM (matching_get ctx.caller)
      intro tx
      dsimp only
      split
      · exact matching_ret _
      · split
        · apply Matching.bindM (matching_ask _)
          intro _
          exact matching_ret _
        · exact matching_ret _
    · intro w e blocked
      exact (openDownload_blocked blocked path).bind
  | upload =>
    apply asks_ensure
    intro id
    apply asks_ensure
    intro path
    apply asks_ensure
    intro expected sha256 env
    constructor
    · apply Twin.exceptT_bind (beginUpload_twin ctx.caller path)
      · exact fun e w w' agree => ⟨rfl,agree⟩
      intro pending pending'
      apply Twin.same_exceptT_bind (receiveBody_twin expected pending pending')
      · exact fun e w w' agree => ⟨rfl,agree⟩
      intro entry
      exact matching_ret _
    · intro w e blocked
      exact (Ends.locked (findMutable_blocked blocked).bind).bind

/-- What every state of the service keeps to. -/
structure Settled (w : World) : Prop where
  keyed : Keyed w.index
  fresh : FreshTmp w
  tmp : w.disk.lookup tmpDir = some .directory
  top : w.disk.lookup transactionsDir = some .directory

theorem run_settled (sha256 : Bytes → Sha256Digest) (opts : ServiceOptions) (steps : List (Env × Op)) :
    Settled (Server.empty.run sha256 opts steps).world := by
  have both : ∀ (s : Server), Orderly s ∧ Sturdy s.world → Orderly (s.run sha256 opts steps) ∧
      Sturdy (s.run sha256 opts steps).world := by
    induction steps with
    | nil => exact fun s here => here
    | cons step rest ih =>
      intro s here
      exact ih _ ⟨step_orderly here.1 step.2,step_sturdy here.1 here.2 step.2⟩
  obtain ⟨orderly,sturdy⟩ := both Server.empty ⟨empty_orderly,empty_sturdy⟩
  exact ⟨orderly.keyed,sturdy.fresh,sturdy.tmp,sturdy.top⟩

/-- The transactions that the caller may read are the same, with their folders. Everything else may differ. -/
structure SameView (caller : Caller) (recipient : Bytes → Bytes → Bool) (w w' : World) : Prop where
  index : ∀ id tx, mayRead caller tx recipient = true → (w.index.lookup id = some tx ↔ w'.index.lookup id = some tx)
  folder : ∀ id tx, w.index.lookup id = some tx → mayRead caller tx recipient = true →
    ∀ q, transactionDir id <+: q → w.disk.lookup q = w'.disk.lookup q

section View

variable {recipient : Bytes → Bytes → Bool} (view : SameView caller recipient w w') (settled : Settled w) (settled' : Settled w')
include view

omit [BoostJson] in
include settled settled' in
theorem SameView.agree (known : w.index.lookup id = some tx) (readable : mayRead caller tx recipient = true) :
    Agree id none w w' where
  entry := by rw [known,(view.index id tx readable).mp known]
  named := settled.keyed id
  disks := by
    constructor
    · intro q q' stands
      cases stands with
      | tmp paired => contradiction
      | near near =>
        rcases near with inside | rfl | rfl | rfl
        · exact view.folder id tx known readable q inside
        · rw [settled.top,settled'.top]
        · rw [Tree.lookup_root,Tree.lookup_root]
        · rw [settled.tmp,settled'.tmp]
    · nofun
    · exact settled.fresh
    · exact settled'.fresh

omit [BoostJson] in
theorem SameView.filter {pred : Transaction → Bool} (shown : ∀ tx, pred tx = true → mayRead caller tx recipient = true) :
    w.all.filter pred = w'.all.filter pred := by
  have same : ∀ id, (w.index.lookup id).filter pred = (w'.index.lookup id).filter pred := by
    intro id
    apply Option.ext
    intro tx
    simp only [Option.filter_eq_some_iff]
    constructor
    · rintro ⟨known,holds⟩
      exact ⟨(view.index id tx (shown tx holds)).mp known,holds⟩
    · rintro ⟨known,holds⟩
      exact ⟨(view.index id tx (shown tx holds)).mpr known,holds⟩
  unfold World.all
  rw [List.filter_filterMap,List.filter_filterMap]
  simp only [same]
  apply enumerate_filterMap
  intro id kept
  have kept' := kept
  rw [← same] at kept'
  have present : ∀ index : Index, (index.lookup id).filter pred ≠ none → id ∈ index.keys := by
    intro index kept
    rw [Finmap.mem_keys]
    by_contra absent
    rw [Finmap.lookup_eq_none.mpr absent] at kept
    exact kept rfl
  exact ⟨fun _ => present _ kept,fun _ => present _ kept'⟩

end View

end

section Responses

variable {fn : TransactionHandler}

section

variable [BoostJson]

/-- What a handler's result is sent as. -/
def sentAs : Result Response → Response
  | .ok response => response
  | .error e => TransactionHandlers.fail e

theorem respond_eq : (perform sha256 env (fn.respond opts options ctx) w).1 =
    sentAs (Prog.run (Svc.handle sha256 env) (fn.run opts options ctx).run w).1 := by
  unfold perform TransactionHandler.respond
  rw [run_bind]
  cases (Prog.run (Svc.handle sha256 env) (fn.run opts options ctx).run w).1 <;> rfl

/-- A hidden transaction and an absent one are told apart by the text of the error. -/
theorem absent_ne_hidden (id : TransactionId) :
    sentAs (.error (notFound id)) ≠ sentAs (.error (forbidden id)) := by
  intro same
  have bodies : errorBody (notFound id) = errorBody ⟨.notfound,ascii "no such transaction"⟩ := congrArg Response.body same
  have read : BoostJson.parse (errorBody ⟨.notfound,ascii "no such transaction"⟩) = some (.obj
      [(ascii "error",.str ErrCode.notfound.toString),(ascii "detail",.str (ascii "no such transaction"))]) :=
    (BoostJson.parse_serialize _ rfl).trans (if_pos (by decide))
  rw [← bodies,errorBody,BoostJson.parse_serialize _ (by simp [Json.maxDepth,Json.fits])] at read
  split at read
  · simp only [Option.some.injEq,Json.obj.injEq,List.cons.injEq,Prod.mk.injEq,Json.str.injEq] at read
    have bytes : some (116 : UInt8) = some 115 := congrArg (fun text : Bytes => text[3]?) read.2.1.2
    simp at bytes
  · cases read

theorem list_alike (view : SameView ctx.caller env.recipient w w') :
    (Prog.run (Svc.handle sha256 env) (TransactionHandlers.list ctx).run w).1 =
      (Prog.run (Svc.handle sha256 env) (TransactionHandlers.list ctx).run w').1 := by
  have rows : ∀ box, (Prog.run (Svc.handle sha256 env) (TransactionService.list ctx.caller box) w).1 =
      (Prog.run (Svc.handle sha256 env) (TransactionService.list ctx.caller box) w').1 := by
    intro box
    unfold TransactionService.list
    split
    · rfl
    · simp only [run_bind]
      apply congrArg TransactionService.newestFirst
      apply view.filter
      intro tx shown
      cases box with
      | outbox => simp [mayRead,show isSender ctx.caller tx = true from shown]
      | inbox =>
        have shown : (isTarget ctx.caller tx env.recipient && (tx.state == .committed || tx.state == .delivered)) = true := shown
        simp only [Bool.and_eq_true,Bool.or_eq_true,beq_iff_eq] at shown
        rcases shown with ⟨target,committed | delivered⟩
        · simp [mayRead,target,committed]
        · simp [mayRead,target,delivered]
  unfold TransactionHandlers.list
  cases TransactionHandlers.boxOf ctx with
  | error e => rfl
  | ok box =>
    have sent : ∀ w, (Prog.run (Svc.handle sha256 env) (do
        let box ← ensure (.ok box)
        let txs ← ExceptT.lift (TransactionService.list ctx.caller box)
        pure (Response.json .ok (Api.encodeTransactionList txs)) : SvcM Response).run w).1 =
        .ok (Response.json .ok (Api.encodeTransactionList
          (Prog.run (Svc.handle sha256 env) (TransactionService.list ctx.caller box) w).1)) := by
      intro w
      simp only [run_exceptT_bind,ensure,ExceptT.run_mk,ExceptT.run_lift,run_map,ExceptT.run_pure]
      rfl
    rw [sent,sent,rows box]

/-- The error that tells whether a transaction is there. -/
def refusal (id : TransactionId) (w : World) : Error := if id ∈ w.index then forbidden id else notFound id

omit [BoostJson] in
theorem blocked_refusal {caller : Caller}
    (closed : ∀ tx, w.index.lookup id = some tx → mayRead caller tx recipient = false) :
    Blocked caller recipient id w (refusal id w) := by
  unfold refusal
  split
  · rename_i present
    obtain ⟨tx,known⟩ := Finmap.mem_iff.mp present
    exact .hidden known (closed tx known)
  · rename_i absent
    exact .absent (Finmap.lookup_eq_none.mpr absent)

theorem refusal_same : sentAs (.error (refusal id w)) = sentAs (.error (refusal id w')) ↔ (id ∈ w.index ↔ id ∈ w'.index) := by
  unfold refusal
  split
  · rename_i present
    split
    · rename_i present'
      exact ⟨fun _ => iff_of_true present present',fun _ => rfl⟩
    · rename_i absent'
      exact ⟨fun same => absurd same.symm (absent_ne_hidden id),fun same => absurd (same.mp present) absent'⟩
  · rename_i absent
    split
    · rename_i present'
      exact ⟨fun same => absurd same (absent_ne_hidden id),fun same => absurd (same.mpr present') absent⟩
    · rename_i absent'
      exact ⟨fun _ => iff_of_false absent absent',fun _ => rfl⟩

theorem responses_tell_presence (route : fn ≠ .create ∧ fn ≠ .receive) (settled : Settled w) (settled' : Settled w')
    (view : SameView ctx.caller env.recipient w w') :
    (perform sha256 env (fn.respond opts options ctx) w).1 = (perform sha256 env (fn.respond opts options ctx) w').1 ↔
      ∀ id, fn.consults ctx = some id → (id ∈ w.index ↔ id ∈ w'.index) := by
  rw [respond_eq,respond_eq]
  by_cases listed : fn = .list
  · subst listed
    exact ⟨fun _ => nofun,fun _ => congrArg sentAs (list_alike view)⟩
  have one : fn ∉ [.create,.list,.receive] := by simp [route,listed]
  have asks : Asks ctx (fn.run opts options ctx) (fn.consults ctx) := handler_asks one
  cases consulted : fn.consults ctx with
  | none =>
    rw [consulted] at asks
    obtain ⟨e,same⟩ := asks
    rw [same]
    exact ⟨fun _ => nofun,fun _ => rfl⟩
  | some id =>
    rw [consulted] at asks
    obtain ⟨matching,refused⟩ := asks sha256 env
    have ends : ∀ {w e}, Blocked ctx.caller env.recipient id w e →
        (Prog.run (Svc.handle sha256 env) (fn.run opts options ctx).run w).1 = .error e := fun blocked => refused _ _ blocked
    have named : (∀ id', some id = some id' → (id' ∈ w.index ↔ id' ∈ w'.index)) ↔ (id ∈ w.index ↔ id ∈ w'.index) := by simp
    rw [named]
    by_cases shown : ∃ tx, w.index.lookup id = some tx ∧ mayRead ctx.caller tx env.recipient = true
    · obtain ⟨tx,known,readable⟩ := shown
      have known' := (view.index id tx readable).mp known
      have same := matching.ends w w' (view.agree settled settled' known readable)
      exact ⟨fun _ => iff_of_true (Finmap.mem_of_lookup_eq_some known) (Finmap.mem_of_lookup_eq_some known'),
        fun _ => congrArg sentAs same.1⟩
    · have closed : ∀ tx, w.index.lookup id = some tx → mayRead ctx.caller tx env.recipient = false := by
        intro tx known
        exact Bool.eq_false_iff.mpr fun readable => shown ⟨tx,known,readable⟩
      have closed' : ∀ tx, w'.index.lookup id = some tx → mayRead ctx.caller tx env.recipient = false := by
        intro tx known
        exact Bool.eq_false_iff.mpr fun readable => shown ⟨tx,(view.index id tx readable).mpr known,readable⟩
      rw [ends (blocked_refusal closed),ends (blocked_refusal closed')]
      exact refusal_same

end

/-- A stranger who asks for a transaction that exists. -/
def strangersRequest : RequestContext where
  caller := ⟨ascii "carol",false,false⟩
  params := (∅ : Params).insert (ascii "id") Sample.id.value
  query := ∅
  contentLength := none
  checksum := []
  body := []
  broken := none
  carried := true

def afterCreate : World := (Server.empty.run Sample.sha256 Sample.opts [(Sample.env,.create Sample.alice Sample.request)]).world

/-- Nothing in the state is for the stranger to read. -/
theorem stranger_reads_nothing (id : TransactionId) (tx : Transaction) (known : afterCreate.index.lookup id = some tx) :
    mayRead strangersRequest.caller tx Sample.env.recipient = false := by
  have none : ∀ tx ∈ afterCreate.all, mayRead strangersRequest.caller tx Sample.env.recipient = false := by decide +kernel
  exact none tx (World.mem_all.mpr ⟨id,known⟩)

theorem stranger_sees_the_same : SameView strangersRequest.caller Sample.env.recipient Server.empty.world afterCreate where
  index id tx readable := by
    constructor
    · intro known
      exact absurd known (by rw [show Server.empty.world.index.lookup id = none from rfl]; simp)
    · intro known
      exact absurd (stranger_reads_nothing id tx known) (by simp [readable])
  folder id tx known := absurd known (by rw [show Server.empty.world.index.lookup id = none from rfl]; simp)

theorem responses_tell_presence_listed :
    let answer := fun fn w => (perform Sample.sha256 Sample.env
      (TransactionHandler.respond Sample.opts ⟨0⟩ strangersRequest fn) w).1
    answer .list Server.empty.world = answer .list afterCreate ∧ answer .get Server.empty.world ≠ answer .get afterCreate := by
  intro answer
  have tells : ∀ fn, fn ≠ .create ∧ fn ≠ .receive → (answer fn Server.empty.world = answer fn afterCreate ↔
      ∀ id, fn.consults strangersRequest = some id → (id ∈ Server.empty.world.index ↔ id ∈ afterCreate.index)) :=
    fun _ route => responses_tell_presence route (run_settled Sample.sha256 Sample.opts []) (run_settled _ _ _)
      stranger_sees_the_same
  refine ⟨(tells .list (by decide)).mpr nofun,fun same => ?_⟩
  have present := ((tells .get (by decide)).mp same Sample.id (by decide +kernel)).mpr (by decide +kernel)
  exact absurd present (by decide)

/-- The stranger learns that the transaction exists: an unknown id has another text. -/
theorem stranger_can_probe : SameView strangersRequest.caller Sample.env.recipient Server.empty.world afterCreate ∧
    (perform Sample.sha256 Sample.env (TransactionHandler.respond Sample.opts ⟨0⟩ strangersRequest .get) Server.empty.world).1 ≠
      (perform Sample.sha256 Sample.env (TransactionHandler.respond Sample.opts ⟨0⟩ strangersRequest .get) afterCreate).1 :=
  ⟨stranger_sees_the_same,by decide +kernel⟩

end Responses

end Confide
