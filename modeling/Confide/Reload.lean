import Confide.ApiJson
import Confide.Immutability
import Confide.Restart

/-! Everything the service saves can be read again, so a server that is started anew has the
index it had; and the inputs for which that is not so. -/
namespace Confide

open Bytes

variable {sha256 : Bytes → Sha256Digest} {opts : ServiceOptions} {env : Env} {pending : List PendingUpload} {op : Op}
  {tx tx' : Transaction} {s : Server}

/-- What the API lets through: requests that its decoders accept, from callers with a name. -/
def Op.Admitted [BoostJson] : Op → Prop
  | .create caller req => (caller.name ≠ [] ∧ isUtf8 caller.name = true) ∧ ∃ text, Api.decodeCreate text = .ok req
  | .receive peer req => isUtf8 peer.name = true ∧ ∃ text, Api.decodeReceive text = .ok req
  | _ => True

/-- The inputs whose results meta.json can hold: a clock and an expiry in years of four digits, and
paths in UTF-8. -/
def Op.Fits (opts : ServiceOptions) (env : Env) (i : Index) : Op → Prop
  | .create _ req => InEra env.now ∧ ∀ expires,
    expiresAt env.now (if req.retentionDays = 0 then opts.defaultRetentionDays else req.retentionDays) = .ok expires →
      InEra expires
  | .beginUpload _ _ path => isUtf8 path.value = true
  | .commit _ _ | .markDelivered _ => InEra env.now
  | .setRetention _ id days => ∀ tx, i.lookup id = some tx → ∀ expires, expiresAt tx.createdAt days = .ok expires →
    InEra expires
  | _ => True

theorem Opens.storable [BoostJson] (opens : Opens opts env op tx) (admitted : op.Admitted) (i : Index) (fits : op.Fits opts env i) :
    Storable tx := by
  cases opens with
  | created user target least most comment lasts =>
    obtain ⟨sender,text,read⟩ := admitted
    obtain ⟨targetUser,targetServer,words⟩ := Api.decodeCreate_utf8 read
    refine ⟨sender,⟨target,targetUser⟩,?_,rfl,words,fits.1,fits.2 _ lasts,nofun,nofun,nofun,.nil⟩
    dsimp only
    split
    · rfl
    · exact targetServer
  | received isPeer sender target lasts comment =>
    obtain ⟨origin,text,read⟩ := admitted
    obtain ⟨first,second,words,created,expires⟩ := Api.decodeReceive_utf8 read
    exact ⟨⟨sender,first⟩,⟨target,second⟩,rfl,origin,words,created,expires,nofun,nofun,nofun,.nil⟩

/-- A transaction that can be saved, also with the expiry that the operation may give it. -/
def Keepable (op : Op) (id : TransactionId) (tx : Transaction) : Prop :=
  Storable tx ∧ ∀ admin days expires, op = .setRetention admin id days → expiresAt tx.createdAt days = .ok expires →
    InEra expires

theorem Updates.keepable (updates : Updates sha256 opts env pending op tx tx') (i : Index) (fits : op.Fits opts env i)
    (uploads : ∀ p ∈ pending, isUtf8 p.upload.path.value = true) (before : Keepable op tx.id tx) :
    Keepable op tx.id tx' := by
  obtain ⟨before,expiry⟩ := before
  have paths := updates.utf8 uploads before.paths
  cases updates with
  | uploaded => exact ⟨{ before with paths := paths, files := upsertFile_sorted before.files _ },expiry⟩
  | erased => exact ⟨{ before with paths := paths, files := before.files.sublist List.eraseP_sublist },expiry⟩
  | committed => exact ⟨{ before with committedAt := fun t same => Option.some.inj same ▸ fits },expiry⟩
  | delivered => exact ⟨{ before with deliveredAt := fun t same => Option.some.inj same ▸ fits },expiry⟩
  | retained _ _ _ _ lasts => exact ⟨{ before with expiresAt := expiry _ _ _ rfl lasts },expiry⟩
  | marked => exact ⟨{ before with },expiry⟩

structure Savable (s : Server) : Prop where
  orderly : Orderly s
  paths : Utf8Paths s
  storable : Throughout (fun _ tx => Storable tx) s.world.index

theorem Savable.keepable (savable : Savable s) (fits : op.Fits opts env s.world.index) :
    Throughout (Keepable op) s.world.index := by
  refine fun id tx known => ⟨savable.storable id tx known,?_⟩
  rintro admin days expires rfl
  exact fits tx known expires

section

variable [BoostJson]

theorem Opens.keepable (opens : Opens opts env op tx) (admitted : op.Admitted) (i : Index) (fits : op.Fits opts env i) :
    Keepable op tx.id tx := by
  refine ⟨opens.storable admitted i fits,?_⟩
  rintro admin days expires rfl
  cases opens

theorem step_savable (savable : Savable s) (admitted : op.Admitted) (fits : op.Fits opts env s.world.index) :
    Savable (s.step sha256 opts env op) := by
  obtain ⟨⟨takes,_⟩,_⟩ := step_takes sha256 opts env savable.orderly.keyed op
  have utf8 : op.Utf8Path := by cases op <;> first | exact fits | trivial
  have after := takes.throughout (fun tx opens _ => opens.keepable admitted _ fits)
    (fun _ _ change _ => change.keepable _ fits savable.paths.pending) (savable.keepable fits)
  exact ⟨step_orderly savable.orderly op,step_utf8 savable.orderly savable.paths utf8,fun id tx known => (after id tx known).1⟩

theorem calls_savable (savable : Savable s) (admitted : op.Admitted) (fits : op.Fits opts env s.world.index) :
    ∀ call ∈ s.calls sha256 opts env op, ∀ tx, call.1 = .insert tx ∨ call.1 = .save tx → Storable tx := by
  intro call made tx passed
  obtain ⟨_,inserted,saved⟩ := calls_throughout savable.orderly.keyed (fun tx opens => opens.keepable admitted _ fits)
    (fun _ _ change => change.keepable _ fits savable.paths.pending) (savable.keepable fits) call made
  rcases passed with inserts | saves
  · exact (inserted tx inserts).1
  · exact (saved tx saves).1

theorem Healthy.recorded (healthy : Healthy sha256 none s) {id : TransactionId}
    (known : s.world.index.lookup id = some tx) (storable : Storable tx) : recorded s.world.disk id = .ok tx := by
  have folder := healthy.folder known
  rw [Confide.recorded,folder.document]
  dsimp only
  rw [(decodeMeta_encodeMeta tx).mpr storable]
  exact if_pos folder.named

theorem Healthy.known_of_folder (healthy : Healthy sha256 none s) {id : TransactionId}
    (folder : s.world.disk.lookup (transactionDir id) = some .directory) : ∃ tx, s.world.index.lookup id = some tx := by
  have agrees := healthy.agrees id (by simp)
  cases known : s.world.index.lookup id with
  | some tx => exact ⟨tx,rfl⟩
  | none =>
    rw [known] at agrees
    rw [show s.world.disk.lookup (transactionDir id) = none from agrees] at folder
    contradiction

theorem restart_healthy (healthy : Healthy sha256 none s) (storable : Throughout (fun _ tx => Storable tx) s.world.index)
    (clear : env.Clear .openStore) : (exec env restart.run (World.boot s.world.disk)).1 = .ok () ∧
      (exec env restart.run (World.boot s.world.disk)).2.index = s.world.index := by
  obtain ⟨works,loaded,_⟩ := restart_spec env s.world.disk clear healthy.top
  have loadable : Loadable s.world.disk := by
    intro id folder
    obtain ⟨tx,known⟩ := healthy.known_of_folder folder
    exact ⟨tx,healthy.recorded known (storable id tx known)⟩
  refine ⟨works.mpr loadable,Finmap.ext_lookup fun id => Option.ext fun tx => ?_⟩
  rw [(loaded loadable).recorded id tx]
  constructor
  · rintro ⟨folder,same⟩
    obtain ⟨tx',known⟩ := healthy.known_of_folder folder
    rw [healthy.recorded known (storable id tx' known)] at same
    rw [known,Except.ok.inj same]
  · exact fun known => ⟨healthy.there known,healthy.recorded known (storable id tx known)⟩

/-- In every run of admitted requests whose paths are UTF-8 and whose clock and expiries keep to years of
four digits, everything the service inserts or saves is read back as it was; and if no primitive
fails, a server started over the directory has the index of the one that wrote it. -/
theorem saved_transactions_reload (sha256 : Bytes → Sha256Digest) (opts : ServiceOptions) (steps : List (Env × Op))
    (admitted : ∀ step ∈ steps, step.2.Admitted)
    (fits : Server.empty.Along sha256 opts (fun s env op => op.Fits opts env s.world.index) steps) :
    (∀ before env op after, steps = before ++ (env,op) :: after →
        ∀ call ∈ (Server.empty.run sha256 opts before).calls sha256 opts env op,
        ∀ tx, call.1 = .insert tx ∨ call.1 = .save tx → decodeMeta (encodeMeta tx) = .ok tx) ∧
      ((∀ step ∈ steps, step.1.Faultless) → ∀ env : Env, env.Clear .openStore →
        (exec env restart.run (World.boot (Server.empty.run sha256 opts steps).world.disk)).1 = .ok () ∧
        (exec env restart.run (World.boot (Server.empty.run sha256 opts steps).world.disk)).2.index =
          (Server.empty.run sha256 opts steps).world.index) := by
  have both := Runs.Along.and (fun step member => admitted step member) fits
  have initial : Savable Server.empty := ⟨empty_orderly,empty_utf8,nofun⟩
  have preserved : ∀ s (step : Env × Op), Savable s → step.2.Admitted ∧ step.2.Fits opts step.1 s.world.index →
      Savable (s.step sha256 opts step.1 step.2) := fun s step savable ok => step_savable savable ok.1 ok.2
  constructor
  · intro before env op after split call made tx passed
    obtain ⟨savable,allowed,fit⟩ := both.before Savable preserved initial split
    exact (decodeMeta_encodeMeta tx).mpr (calls_savable savable allowed fit call made tx passed)
  · intro faultless env clear
    have ends := both.invariant Savable preserved initial
    exact restart_healthy (run_healthy opts (empty_healthy sha256) steps faultless) ends.storable clear

end

theorem upload_reloads :
    (exec Sample.env restart.run (World.boot (Server.empty.run Sample.sha256 Sample.opts lateUploadRun).world.disk)).2.index =
      (Server.empty.run Sample.sha256 Sample.opts lateUploadRun).world.index := by
  have request : Api.decodeCreate (ascii "\x7b\"target_user\":\"bob\"\x7d") = .ok Sample.request := by decide +kernel
  obtain ⟨_,reload⟩ := saved_transactions_reload Sample.sha256 Sample.opts lateUploadRun
    (by simpa [lateUploadRun,uploadRun,Op.Admitted] using ⟨by decide,_,request⟩)
    (by
      have expiry : expiresAt 1750000000 30 = .ok 1752592000 := by decide
      simp +decide [lateUploadRun,uploadRun,Server.Along,Runs.Along,Op.Fits,Sample.request,Sample.opts,Sample.env,expiry])
  exact (reload (by simp [lateUploadRun,uploadRun,Sample.env_faultless]) Sample.env (fun _ => rfl)).2

def lastYear : ReceiveRequest := ⟨Sample.id,ascii "alice",ascii "bob",253400000000,253402000000,[]⟩

def SvcCall.savesUnreadable [BoostJson] : SvcCall → Bool
  | .insert tx | .save tx => decide (decodeMeta (encodeMeta tx) ≠ .ok tx)
  | _ => false

/-- An upload to a raw path and a retention that ends after the last year go through; what each
saves is not read back, and the server does not start again. -/
theorem saved_transactions_lost :
    let peer : Caller := ⟨ascii "beta",true,false⟩
    let uploading := Server.empty.run Sample.sha256 Sample.opts (rawPathRun.take 2)
    let received := Server.empty.run Sample.sha256 Sample.opts [(Sample.env,.receive peer lastYear)]
    ∀ server op, (server,op) ∈ [(uploading,Op.finishUpload 0 none),
        (received,.setRetention ⟨ascii "root",false,true⟩ Sample.id 3650)] →
      (server.calls Sample.sha256 Sample.opts Sample.env op).any (fun call => call.1.savesUnreadable) = true ∧
      (server.reply Sample.sha256 Sample.opts Sample.env op).isOk = true ∧
      (exec Sample.env restart.run
        (World.boot (server.step Sample.sha256 Sample.opts Sample.env op).world.disk)).1.isOk = false := by
  intro peer uploading received server op listed
  simp only [List.mem_cons,Prod.mk.injEq,List.not_mem_nil,or_false] at listed
  rcases listed with ⟨rfl,rfl⟩ | ⟨rfl,rfl⟩ <;> decide +kernel

end Confide
