import Confide.ApiJson
import Confide.Endurance
import Confide.FileLists

/-! What a push says of a transaction arrives as it was sent, and passes every check of the receiving server. -/
namespace Confide

open Bytes Resumption Resumption.Prog

variable {sha256 : Bytes → Sha256Digest} {opts : ServiceOptions} {env : Env} {pending : List PendingUpload} {op : Op}
  {tx tx' : Transaction} {s : Server}

/-- How the forwarder announces a transaction. -/
def Forwarder.announce (tx : Transaction) : ReceiveRequest :=
  ⟨tx.id,tx.sender,tx.targetUser,tx.createdAt,tx.expiresAt,tx.comment⟩

/-- The names are given, the texts are UTF-8 and the years have four digits. -/
structure ReceiveRequest.Plain (req : ReceiveRequest) : Prop where
  sender : req.sender ≠ [] ∧ isUtf8 req.sender = true
  targetUser : req.targetUser ≠ [] ∧ isUtf8 req.targetUser = true
  createdAt : InEra req.createdAt
  expiresAt : InEra req.expiresAt
  comment : isUtf8 req.comment = true

theorem Api.parseObject_serialize [BoostJson] {fields : List (Bytes × Json)} (inside : (Json.obj fields).fits Json.maxDepth = true)
    (text : (Json.obj fields).isText = true) : Api.parseObject (BoostJson.serialize (.obj fields)) = .ok fields := by
  rw [Api.parseObject,BoostJson.parse_serialize _ inside,text]
  rfl

theorem Api.receiveFields_fits (req : ReceiveRequest) : (Json.obj (Api.receiveFields req)).fits Json.maxDepth = true := by
  simp [Api.receiveFields,Json.maxDepth,Json.fits]

theorem Api.receiveFields_isText {req : ReceiveRequest} (plain : req.Plain) :
    (Json.obj (Api.receiveFields req)).isText = true := by
  have keys : ∀ key ∈ ["id","sender","target_user","created_at","expires_at","comment"], isUtf8 (ascii key) = true := by
    decide
  simp only [Json.isText,Json.isTextFields_eq,Api.receiveFields,List.all_cons,List.all_nil,Bool.and_true,
    req.id.isUtf8,formatIso8601_isUtf8,plain.sender.2,plain.targetUser.2,plain.comment,keys _ (by simp : "id" ∈ _),
    keys _ (by simp : "sender" ∈ _),keys _ (by simp : "target_user" ∈ _),keys _ (by simp : "created_at" ∈ _),
    keys _ (by simp : "expires_at" ∈ _),keys _ (by simp : "comment" ∈ _)]

theorem Api.decodeReceive_encodeReceive [BoostJson] {req : ReceiveRequest} (plain : req.Plain) :
    Api.decodeReceive (Api.encodeReceive req) = .ok req := by
  have id : getString (Api.receiveFields req) (ascii "id") = .ok req.id.value := rfl
  have sender : getName (Api.receiveFields req) (ascii "sender") = .ok req.sender :=
    (getName_eq_ok rfl).mpr ⟨plain.sender.1,rfl⟩
  have targetUser : getName (Api.receiveFields req) (ascii "target_user") = .ok req.targetUser :=
    (getName_eq_ok rfl).mpr ⟨plain.targetUser.1,rfl⟩
  have createdAt : getTimestamp (Api.receiveFields req) (ascii "created_at") = .ok req.createdAt :=
    (getTimestamp_eq_ok rfl).mpr ⟨plain.createdAt,rfl⟩
  have expiresAt : getTimestamp (Api.receiveFields req) (ascii "expires_at") = .ok req.expiresAt :=
    (getTimestamp_eq_ok rfl).mpr ⟨plain.expiresAt,rfl⟩
  have comment : getOptionalString (Api.receiveFields req) (ascii "comment") = .ok req.comment := rfl
  rw [Api.decodeReceive,Api.encodeReceive,
    Api.parseObject_serialize (Api.receiveFields_fits req) (Api.receiveFields_isText plain)]
  simp only [ok_bind,id,TransactionId.parse_value,inField,sender,targetUser,createdAt,expiresAt,comment]
  rfl

/-- Whatever it holds, it comes out as it went in or not at all. -/
theorem Api.decodeReceive_reads [BoostJson] {req req' : ReceiveRequest} (read : Api.decodeReceive (Api.encodeReceive req) = .ok req') :
    req' = req := by
  obtain ⟨obj,parsed,read⟩ := bind_eq_ok.mp read
  rw [Api.encodeReceive,Api.parseObject,BoostJson.parse_serialize _ (Api.receiveFields_fits req)] at parsed
  have same : obj = Api.receiveFields req := by
    cases text : (Json.obj (Api.receiveFields req)).isText with
    | false =>
      rw [text] at parsed
      cases parsed
    | true =>
      rw [text] at parsed
      exact (Except.ok.inj parsed).symm
  subst same
  have id : getString (Api.receiveFields req) (ascii "id") = .ok req.id.value := rfl
  have comment : getOptionalString (Api.receiveFields req) (ascii "comment") = .ok req.comment := rfl
  have sender : getString (Api.receiveFields req) (ascii "sender") = .ok req.sender := rfl
  have user : getString (Api.receiveFields req) (ascii "target_user") = .ok req.targetUser := rfl
  have created : getString (Api.receiveFields req) (ascii "created_at") = .ok (formatIso8601 req.createdAt) := rfl
  have expires : getString (Api.receiveFields req) (ascii "expires_at") = .ok (formatIso8601 req.expiresAt) := rfl
  simp only [id,comment,ok_bind,TransactionId.parse_value,inField,bind_eq_ok,getName_eq_ok sender,getName_eq_ok user,
    getTimestamp_eq_ok created,getTimestamp_eq_ok expires,pure,Except.pure,Except.ok.injEq] at read
  obtain ⟨_,⟨_,rfl⟩,_,⟨_,rfl⟩,_,⟨_,rfl⟩,_,⟨_,rfl⟩,rfl⟩ := read
  rfl

/-- What the receiving server checks beside the names. -/
structure Receivable (opts : ServiceOptions) (tx : Transaction) : Prop where
  lasts : tx.createdAt < tx.expiresAt
  comment : checkComment tx.comment opts.maxCommentLength = .ok ()

theorem expiresAt_later {created days expires : Int} (lasts : expiresAt created days = .ok expires) : created < expires := by
  unfold expiresAt at lasts
  split at lasts
  · contradiction
  · have same := Except.ok.inj lasts
    omega

theorem Opens.receivable (opens : Opens opts env op tx) : Receivable opts tx := by
  cases opens with
  | created _ _ _ _ comment lasts => exact ⟨expiresAt_later lasts,comment⟩
  | received _ _ _ lasts comment => exact ⟨lasts,comment⟩

theorem Updates.receivable (updates : Updates sha256 opts env pending op tx tx') (receivable : Receivable opts tx) :
    Receivable opts tx' := by
  cases updates with
  | retained _ _ _ _ lasts => exact ⟨expiresAt_later lasts,receivable.comment⟩
  | uploaded | erased | committed | delivered | marked => exact ⟨receivable.lasts,receivable.comment⟩

/-- Nothing is stored under the id but what the other side would take. -/
structure Announceable (opts : ServiceOptions) (id : TransactionId) (s : Server) : Prop where
  keyed : Keyed s.world.index
  receivable : Throughout (fun id' tx => id' = id → Receivable opts tx) s.world.index

section

variable [BoostJson]

theorem step_announceable {id : TransactionId} (announceable : Announceable opts id s) (op : Op) :
    Announceable opts id (s.step sha256 opts env op) := by
  obtain ⟨⟨takes,_⟩,_⟩ := step_takes sha256 opts env announceable.keyed op
  constructor
  · exact step_keyed announceable.keyed op
  · exact takes.throughout (fun _ opens _ _ => opens.receivable)
      (fun _ _ change _ receivable its => change.receivable (receivable its)) announceable.receivable

theorem run_announceable {id : TransactionId} (announceable : Announceable opts id s) (steps : List (Env × Op)) :
    Announceable opts id (s.run sha256 opts steps) := by
  induction steps generalizing s with
  | nil => exact announceable
  | cons step rest ih => exact ih (step_announceable announceable step.2)

theorem create_announceable {caller : Caller} {req : CreateRequest} (keyed : Keyed s.world.index)
    (created : s.reply sha256 opts env (.create caller req) = .ok ()) :
    Announceable opts env.fresh (s.step sha256 opts env (.create caller req)) := by
  obtain ⟨⟨takes,_⟩,_⟩ := step_takes sha256 opts env keyed (.create caller req)
  constructor
  · exact step_keyed keyed _
  rw [created] at takes
  generalize (s.step sha256 opts env (.create caller req)).world.index = after at takes
  cases takes with
  | opened opens absent =>
    have receivable := opens.receivable
    intro id tx stored its
    cases opens with
    | created =>
      rw [its,Finmap.lookup_insert] at stored
      exact Option.some.inj stored ▸ receivable
  | updated _ updates => cases updates with | marked drops => cases drops
  | dropped _ drops => cases drops
  | streamed part => contradiction

theorem outgoing_stored {w : World} {id : TransactionId}
    (returned : (perform sha256 env (TransactionService.outgoing id).run w).1 = .ok tx) :
    w.index.lookup id = some tx ∧ isOutgoing tx = true := by
  have found : Leads (Svc.handle sha256 env) (TransactionService.outgoing id) w fun result _ =>
      ∀ tx, result = .ok tx → w.index.lookup id = some tx ∧ isOutgoing tx = true := by
    unfold TransactionService.outgoing
    simp only [leads_find_bind]
    cases w.index.lookup id with
    | none => exact leads_throw.mpr fun _ bad => by cases bad
    | some stored =>
      dsimp only
      split
      · rename_i ready
        rintro tx same
        cases same
        exact ⟨rfl,ready⟩
      · exact leads_throw.mpr fun _ bad => by cases bad
  exact found tx returned

end

/-- Whatever fails in the store, the program has no complaint about its input. -/
def Uncritical (p : SysM α) : Prop := ∀ env w e, (exec env p.run w).1 = .error e → e.code ≠ .validation

theorem Uncritical.bind {p : SysM α} {f : α → SysM β} (first : Uncritical p) (rest : ∀ a, Uncritical (f a)) :
    Uncritical (p >>= f) := by
  intro env w e failed
  rw [exec_bindM] at failed
  cases outcome : exec env p.run w with
  | mk result w' =>
    rw [outcome] at failed
    cases result with
    | error e' =>
      obtain rfl := Except.error.inj failed
      exact first env w e' (congrArg Prod.fst outcome)
    | ok a => exact rest a env w' e failed

theorem uncritical_lift {p : Prog Sys α} : Uncritical (ExceptT.lift p : SysM α) := by
  intro env w e failed
  rw [exec_liftM] at failed
  contradiction

theorem uncritical_pure (value : α) : Uncritical (pure value : SysM α) := nofun

theorem uncritical_throw {e : Error} (other : e.code ≠ .validation) : Uncritical (throw e : SysM α) := by
  intro env w e' failed
  exact Except.error.inj failed ▸ other

theorem uncritical_refuse {bad : Bool} {e : Error} (other : e.code ≠ .validation) : Uncritical (refuse bad e) := by
  unfold refuse
  split
  · exact uncritical_throw other
  · exact nofun

/-- A program that hands on the result of another. -/
theorem uncritical_checked {p : Prog Sys (Result α × γ)} {f : α → γ → SysM β}
    (honest : ∀ env w e, (exec env p w).1.1 = .error e → e.code ≠ .validation) (rest : ∀ a c, Uncritical (f a c)) :
    Uncritical (ExceptT.lift p >>= fun x => ensure x.1 >>= fun a => f a x.2) := by
  intro env w e failed
  rw [exec_bindM,exec_liftM] at failed
  dsimp only at failed
  rw [exec_bindM,exec_ensure] at failed
  cases result : (exec env p w).1.1 with
  | error e' =>
    rw [result] at failed
    obtain rfl := Except.error.inj failed
    exact honest env w e' result
  | ok a =>
    rw [result] at failed
    exact rest a _ env _ e failed

theorem write_uncritical (u : Upload) (chunk : Bytes) (env : Env) (w : World) (e : Error)
    (failed : (exec env (u.write chunk) w).1.1 = .error e) : e.code ≠ .validation := by
  unfold Upload.write at failed
  split at failed
  · cases failed
    decide
  split at failed
  · contradiction
  rw [exec_bind] at failed
  split at failed
  · contradiction
  · rw [exec_bind] at failed
    cases failed
    exact nofun

theorem finish_uncritical (u : Upload) (expected : Option Sha256Digest) : Uncritical (u.finish sha256 expected) := by
  have digest : Uncritical (ensure (u.checkDigest (sha256 u.hashed) expected) : SysM Unit) := by
    intro env w e failed
    rw [exec_ensure] at failed
    unfold Upload.checkDigest at failed
    split at failed
    · contradiction
    · split at failed
      · contradiction
      · cases failed
        exact nofun
  have io : ∀ done what, Uncritical (orIo done what u.path.value) := fun _ _ => uncritical_refuse (by nofun)
  apply uncritical_lift.bind fun _ => (io _ _).bind fun _ => uncritical_lift.bind fun _ => (io _ _).bind fun _ =>
    uncritical_lift.bind fun _ => (io _ _).bind fun _ => digest.bind fun _ => uncritical_lift.bind fun _ => ?_
  apply (uncritical_refuse (by nofun)).bind fun _ => (io _ _).bind fun _ => uncritical_lift.bind fun _ =>
    (uncritical_refuse (by nofun)).bind fun _ => uncritical_lift.bind fun _ => (io _ _).bind fun _ => ?_
  exact uncritical_pure _

theorem commit_uncritical (u : Upload) (expected : Option Sha256Digest) (env : Env) (w : World) (e : Error)
    (failed : (exec env (u.commit sha256 expected) w).1.1 = .error e) : e.code ≠ .validation := by
  unfold Upload.commit at failed
  split at failed
  · obtain rfl := Except.error.inj failed
    decide
  rw [exec_bind] at failed
  split at failed
  · contradiction
  · rename_i e' outcome
    rw [exec_bind] at failed
    obtain rfl := Except.error.inj failed
    exact finish_uncritical u expected env w e' outcome

theorem beginWrite_uncritical (id : TransactionId) (final : Path) (path : RelativePath) :
    Uncritical (FileStore.beginWrite id final path) := by
  apply uncritical_lift.bind fun _ => (uncritical_refuse (by nofun)).bind fun _ => uncritical_lift.bind fun _ =>
    uncritical_lift.bind fun opened => ?_
  cases opened with
  | opened => exact uncritical_pure _
  | missing | failed => exact uncritical_throw (by nofun)

theorem writeDocument_uncritical (id : TransactionId) (doc : Document) (content : Bytes) :
    Uncritical (FileStore.writeDocument sha256 id doc content) := by
  apply (beginWrite_uncritical id (documentPath id doc) doc.path).bind
  intro u
  apply uncritical_checked (f := fun _ u => ExceptT.lift (u.commit sha256 none) >>= fun x => ensure x.1 >>= fun _ => pure ())
    (write_uncritical u content)
  intro _ u
  exact uncritical_checked (f := fun _ _ => pure ()) (commit_uncritical u none) fun _ _ => uncritical_pure ()

section

variable [BoostJson]

theorem insert_uncritical (tx : Transaction) : Uncritical (TransactionRepository.insert sha256 tx) := by
  have folder : Uncritical (FileStore.createTransaction tx.id) := by
    apply uncritical_lift.bind fun made => ?_
    cases made with
    | present | clash | failed => exact uncritical_throw (by nofun)
    | created => exact uncritical_lift.bind fun _ => uncritical_refuse (by nofun)
  apply uncritical_lift.bind fun _ => uncritical_lift.bind fun _ => (uncritical_refuse (by nofun)).bind fun _ =>
    folder.bind fun _ => ?_
  intro env w e failed
  rw [exec_bindM,exec_liftM] at failed
  dsimp only at failed
  split at failed
  · rename_i e' outcome
    rw [exec_bindM,exec_liftM] at failed
    obtain rfl := Except.error.inj failed
    exact writeDocument_uncritical _ _ _ env w e' outcome
  · exact uncritical_lift env _ e failed

/-- The copy a server makes of a transaction that is announced to it. -/
def ReceiveRequest.copy (req : ReceiveRequest) (origin : Bytes) : Transaction :=
  ⟨req.id,req.sender,req.targetUser,[],origin,req.comment,.open,req.createdAt,req.expiresAt,none,none,[]⟩

theorem receive_leads {peer : Caller} {req : ReceiveRequest} (w : World) (isPeer : peer.isPeer = true)
    (sender : req.sender ≠ []) (targetUser : req.targetUser ≠ []) (lasts : req.createdAt < req.expiresAt)
    (comment : checkComment req.comment opts.maxCommentLength = .ok ())
    (accepted : env.destination req.targetUser [] = .ok ()) :
    Leads (Svc.handle sha256 env) (TransactionService.receive opts peer req) w fun result w' =>
      result = (Svc.handle sha256 env (.insert (req.copy peer.name)) w).1.map (fun _ => req.copy peer.name) ∧
        w' = (Svc.handle sha256 env (.insert (req.copy peer.name)) w).2 := by
  unfold TransactionService.receive
  simp only [leads_refuse_bind,leads_ensure_bind,leads_try_bind,leads_locked,isPeer,sender,targetUser,comment,
    run_checkDestination,accepted,run_insert]
  have later : decide (req.expiresAt ≤ req.createdAt) = false := by simpa using lasts
  apply And.intro nofun
  intro _
  apply And.intro (by simp)
  intro _
  apply And.intro fun early => absurd early (by simp [later])
  intro _
  apply And.intro nofun
  intro _ _
  apply And.intro nofun
  intro _ _
  constructor
  · intro e failed
    simp [ReceiveRequest.copy,failed,Except.map]
  · intro _ done
    simp [ReceiveRequest.copy,done,Except.map,leads_pure]

theorem report_run {p : SvcM α} {w : World} : perform sha256 env (report pending p) w =
    (((perform sha256 env p.run w).1.map fun _ => (),pending),(perform sha256 env p.run w).2) := by
  rw [perform,report,run_bind]
  rfl

theorem receive_step (sha256 : Bytes → Sha256Digest) {peer : Caller} {req : ReceiveRequest} (b : Server)
    (isPeer : peer.isPeer = true)
    (sender : req.sender ≠ []) (targetUser : req.targetUser ≠ []) (lasts : req.createdAt < req.expiresAt)
    (comment : checkComment req.comment opts.maxCommentLength = .ok ())
    (accepted : env.destination req.targetUser [] = .ok ()) :
    b.reply sha256 opts env (.receive peer req) = (Svc.handle sha256 env (.insert (req.copy peer.name)) b.world).1 ∧
      (b.step sha256 opts env (.receive peer req)).world =
        (Svc.handle sha256 env (.insert (req.copy peer.name)) b.world).2 := by
  obtain ⟨result,world⟩ : Leads (Svc.handle sha256 env) (TransactionService.receive opts peer req) b.world _ :=
    receive_leads b.world isPeer sender targetUser lasts comment accepted
  have run : b.outcome sha256 opts env (.receive peer req) = _ := report_run
  constructor
  · rw [Server.reply,run]
    dsimp only [perform]
    rw [result]
    generalize (Svc.handle sha256 env (.insert (req.copy peer.name)) b.world).1 = reply
    cases reply <;> rfl
  · rw [Server.step,run]
    exact world

/-- The server keeps what was announced, and fails for reasons of its own only. -/
theorem receive_announced {peer : Caller} (b : Server) (isPeer : peer.isPeer = true) (plain : (Forwarder.announce tx).Plain)
    (receivable : Receivable opts tx) (accepted : env.destination tx.targetUser [] = .ok ()) :
    (∀ e, b.reply sha256 opts env (.receive peer (Forwarder.announce tx)) = .error e → e.code ≠ .validation) ∧
      (b.reply sha256 opts env (.receive peer (Forwarder.announce tx)) = .ok () →
        ∃ stored, (b.step sha256 opts env (.receive peer (Forwarder.announce tx))).world.index.lookup tx.id = some stored ∧
          Forwarder.announce stored = Forwarder.announce tx) ∧
      (Sturdy b.world → env.Clear .insert → b.world.index.lookup tx.id = none →
        b.world.disk.lookup (transactionDir tx.id) = none →
        b.reply sha256 opts env (.receive peer (Forwarder.announce tx)) = .ok ()) := by
  obtain ⟨reply,world⟩ := receive_step sha256 b isPeer plain.sender.1 plain.targetUser.1 receivable.lasts receivable.comment
    accepted
  rw [reply,world]
  apply And.intro fun e failed => insert_uncritical _ env b.world e failed
  constructor
  · intro done
    obtain ⟨_,_,index⟩ | ⟨⟨e,failed⟩,_⟩ := insert_indexes sha256 env b.world ((Forwarder.announce tx).copy peer.name)
    · rw [index]
      exact ⟨_,Finmap.lookup_insert _,rfl⟩
    · rw [done] at failed
      contradiction
  · intro sturdy clear unknown bare
    exact (insert_effect sha256 env _ b.world sturdy.fresh).works clear unknown sturdy.tmp sturdy.top bare

/-- A request comes out of its encoding as it went in. A transaction that was created here and is ready to be sent passes
the checks of a server with the same limit that knows its target; the server does not find its announcement invalid, stores
what it says, and can always do so if it is in order and has nothing under the id. -/
theorem push_metadata_survives (sha256 : Bytes → Sha256Digest) :
    (∀ req : ReceiveRequest, req.Plain → Api.decodeReceive (Api.encodeReceive req) = .ok req) ∧
    ∀ (opts : ServiceOptions) (boot : Env) (disk : Disk), (exec boot restart.run (World.boot disk)).1 = .ok () →
    ∀ (before : List (Env × Op)) (env : Env) (caller : Caller) (create : CreateRequest) (since : List (Env × Op)) (asked : Env)
      (tx : Transaction),
      let a := Server.run sha256 opts ⟨(exec boot restart.run (World.boot disk)).2,[]⟩ before
      let a' := (a.step sha256 opts env (.create caller create)).run sha256 opts since
      a.reply sha256 opts env (.create caller create) = .ok () →
      (perform sha256 asked (TransactionService.outgoing env.fresh).run a'.world).1 = .ok tx →
      (Forwarder.announce tx).Plain →
    ∀ (opts' : ServiceOptions) (b : Server) (env' : Env) (peer : Caller), opts'.maxCommentLength = opts.maxCommentLength →
      peer.isPeer = true → env'.destination tx.targetUser [] = .ok () →
      ∃ req, Api.decodeReceive (Api.encodeReceive (Forwarder.announce tx)) = .ok req ∧
        (∀ e, b.reply sha256 opts' env' (.receive peer req) = .error e → e.code ≠ .validation) ∧
        (b.reply sha256 opts' env' (.receive peer req) = .ok () →
          ∃ stored, (b.step sha256 opts' env' (.receive peer req)).world.index.lookup tx.id = some stored ∧
            stored.id = tx.id ∧ stored.sender = tx.sender ∧ stored.targetUser = tx.targetUser ∧ stored.comment = tx.comment ∧
            stored.createdAt = tx.createdAt ∧ stored.expiresAt = tx.expiresAt) ∧
        (Sturdy b.world → env'.Clear .insert → b.world.index.lookup tx.id = none →
          b.world.disk.lookup (transactionDir tx.id) = none → b.reply sha256 opts' env' (.receive peer req) = .ok ()) := by
  apply And.intro fun req plain => Api.decodeReceive_encodeReceive plain
  intro opts boot disk started before env caller create since asked tx a a' created returned plain opts' b env' peer same isPeer
    accepted
  have keyed : Keyed a.world.index := (run_searchable (restart_searchable started []) before).keyed
  have announceable : Announceable opts env.fresh a' := run_announceable (create_announceable keyed created) since
  obtain ⟨lasts,comment⟩ := announceable.receivable env.fresh tx (outgoing_stored returned).1 rfl
  obtain ⟨valid,stores,works⟩ := receive_announced b isPeer plain ⟨lasts,by rw [same]; exact comment⟩ accepted
  apply Exists.intro (Forwarder.announce tx)
  apply And.intro (Api.decodeReceive_encodeReceive plain)
  apply And.intro valid
  constructor
  · intro done
    obtain ⟨stored,known,said⟩ := stores done
    simp only [Forwarder.announce,ReceiveRequest.mk.injEq] at said
    obtain ⟨id,sender,targetUser,createdAt,expiresAt,comment⟩ := said
    exact ⟨stored,known,id,sender,targetUser,comment,createdAt,expiresAt⟩
  · exact works

end

namespace Sample

def toBeta : CreateRequest := ⟨ascii "bob",ascii "beta",0,ascii "hello"⟩

def sent : Transaction := ⟨id,ascii "alice",ascii "bob",ascii "beta",[],ascii "hello",.committed,1750000000,1750604800,
  some 1750000000,none,[⟨path,0,Sample.sha256 []⟩]⟩

/-- An upload, a change of the retention and the commit. -/
def sending : List (Env × Op) :=
  [(Sample.env,.beginUpload alice id path),(Sample.env,.finishUpload 0 none),
    (Sample.env,.setRetention ⟨ascii "root",false,true⟩ id 7),(Sample.env,.commit alice id)]

def alpha : Caller := ⟨ascii "alpha",true,false⟩

end Sample

theorem announced_transaction_arrives :
    let a := Server.run Sample.sha256 Sample.opts ⟨(exec Sample.env restart.run (World.boot emptyDisk)).2,[]⟩ []
    let a' := (a.step Sample.sha256 Sample.opts Sample.env (.create Sample.alice Sample.toBeta)).run Sample.sha256 Sample.opts
      Sample.sending
    (perform Sample.sha256 Sample.env (TransactionService.outgoing Sample.id).run a'.world).1 = .ok Sample.sent ∧
      ∃ req, Api.decodeReceive (Api.encodeReceive (Forwarder.announce Sample.sent)) = .ok req ∧
        Server.empty.reply Sample.sha256 Sample.opts Sample.env (.receive Sample.alpha req) = .ok () := by
  intro a a'
  have created : a.reply Sample.sha256 Sample.opts Sample.env (.create Sample.alice Sample.toBeta) = .ok () := by decide +kernel
  have returned : (perform Sample.sha256 Sample.env (TransactionService.outgoing Sample.id).run a'.world).1 =
      .ok Sample.sent := by
    decide +kernel
  have plain : (Forwarder.announce Sample.sent).Plain := by constructor <;> decide
  obtain ⟨req,read,_,_,works⟩ := (push_metadata_survives Sample.sha256).2 Sample.opts Sample.env emptyDisk (by decide +kernel) []
    Sample.env Sample.alice Sample.toBeta Sample.sending Sample.env Sample.sent created returned plain Sample.opts Server.empty
    Sample.env Sample.alpha rfl rfl rfl
  exact ⟨returned,req,read,works empty_sturdy (fun _ => rfl) rfl (by decide +kernel)⟩

end Confide
