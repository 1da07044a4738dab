import Confide.Immutability

/-! The business log as an audit trail: what it says about a transaction, read in order, is what
the service has stored. -/
namespace Confide

structure Account where
  state : State
  files : List FileEntry
  deriving DecidableEq, Repr

def Account.empty : Account := ⟨.open,[]⟩

/-- The file entry that a `file_added` record describes. -/
def BizEvent.entry (event : BizEvent) : Option FileEntry := do
  let path ← (RelativePath.parse (← event.file)).toOption
  let digest ← (Sha256Digest.fromHex (← event.sha256)).toOption
  return ⟨path,← event.size,digest⟩

def Account.post (account : Account) (event : BizEvent) : Account :=
  match event.type with
  | .fileAdded => match event.entry with
    | some entry => { account with files := upsertFile account.files entry }
    | none => account
  | .fileRemoved => { account with files := account.files.eraseP fun file => event.file = some file.path.value }
  | .committed | .received => { account with state := .committed }
  | .forwarded => { account with state := .delivered }
  | .expired | .adminDeleted => Account.empty
  | .txCreated | .downloaded | .retentionChanged | .sessionsRevoked => account

/-- The records of one transaction, read in order. -/
def balance (log : List BizEvent) (id : TransactionId) : Account :=
  (log.filter fun event => event.tx = some id).foldl Account.post .empty

/-- A record with the number and the bytes of the files gives those of the files at that point. -/
def Counts (log : List BizEvent) : Prop :=
  ∀ before event after, log = before ++ event :: after → event.type ∈ [BizEventType.committed,.received,.forwarded] →
    ∃ id, event.tx = some id ∧ event.fileCount.map (·.toNat) = some (balance before id).files.length ∧
      event.totalBytes.map (·.toNat) = some (((balance before id).files.map (·.size.toNat)).sum % 2 ^ 64)

theorem balance_concat (log : List BizEvent) (event : BizEvent) (id : TransactionId) :
    balance (log ++ [event]) id = if event.tx = some id then (balance log id).post event else balance log id := by
  unfold balance
  split
  · rename_i same
    simp [List.filter_append,same]
  · rename_i other
    simp [List.filter_append,other]

theorem counts_concat {log : List BizEvent} {event : BizEvent} (counts : Counts log)
    (last : event.type ∈ [BizEventType.committed,.received,.forwarded] →
      ∃ id, event.tx = some id ∧ event.fileCount.map (·.toNat) = some (balance log id).files.length ∧
        event.totalBytes.map (·.toNat) = some (((balance log id).files.map (·.size.toNat)).sum % 2 ^ 64)) :
    Counts (log ++ [event]) := by
  intro before event' after split total
  rcases List.eq_nil_or_concat after with rfl | ⟨after,final,rfl⟩
  · obtain ⟨rfl,same⟩ := List.append_inj' split rfl
    cases same
    exact last total
  · have split : log ++ [event] = (before ++ event' :: after) ++ [final] := by simpa using split
    obtain ⟨rfl,_⟩ := List.append_inj' split rfl
    exact counts before event' after rfl total

theorem totalBytes_toNat (tx : Transaction) : tx.totalBytes.toNat = (tx.files.map (·.size.toNat)).sum % 2 ^ 64 := by
  have general : ∀ (files : List FileEntry) (start : UInt64),
      (files.foldl (fun sum file => sum + file.size) start).toNat =
        (start.toNat + (files.map (·.size.toNat)).sum) % 2 ^ 64 := by
    intro files
    induction files with
    | nil => intro start; simp
    | cons file files ih =>
      intro start
      rw [List.foldl_cons,ih,UInt64.toNat_add,List.map_cons,List.sum_cons,Nat.mod_add_mod,Nat.add_assoc]
  have whole := general tx.files 0
  rwa [UInt64.toNat_zero,Nat.zero_add] at whole

/-- What the service has stored about a transaction, as an account of it. -/
def Index.account (i : Index) (id : TransactionId) : Account :=
  match i.lookup id with
  | some tx => ⟨tx.state,tx.files⟩
  | none => .empty

structure Audited (b : Book) : Prop where
  balanced : ∀ id, balance b.log id = Index.account b.index id
  counts : Counts b.log

variable {sha256 : Bytes → Sha256Digest} {opts : ServiceOptions} {env : Env} {pending : List PendingUpload} {op : Op}
  {b b' : Book} {i' : Index} {id : TransactionId} {tx tx' : Transaction} {s : Server} {event : BizEvent}

theorem account_known {i : Index} (known : i.lookup id = some tx) : Index.account i id = ⟨tx.state,tx.files⟩ := by
  simp only [Index.account,known]

theorem account_absent {i : Index} (absent : i.lookup id = none) : Index.account i id = .empty := by
  simp only [Index.account,absent]

theorem account_insert_of_ne {i : Index} {other : TransactionId} (differs : other ≠ id) :
    Index.account (i.insert id tx) other = Index.account i other := by
  simp only [Index.account,Finmap.lookup_insert_of_ne _ differs]

theorem account_erase_of_ne {i : Index} {other : TransactionId} (differs : other ≠ id) :
    Index.account (i.erase id) other = Index.account i other := by
  simp only [Index.account,Finmap.lookup_erase_ne differs]

/-- One more record, which says what has become of its transaction. -/
theorem Audited.record (audited : Audited b) (its : event.tx = some id)
    (others : ∀ other ≠ id, Index.account i' other = Index.account b.index other)
    (moves : (Index.account b.index id).post event = Index.account i' id)
    (totals : event.type ∈ [BizEventType.committed,.received,.forwarded] →
      event.fileCount.map (·.toNat) = some (Index.account b.index id).files.length ∧
        event.totalBytes.map (·.toNat) = some (((Index.account b.index id).files.map (·.size.toNat)).sum % 2 ^ 64)) :
    Audited ⟨i',b.log ++ [event]⟩ := by
  refine ⟨fun id' => ?_,counts_concat audited.counts fun total => ⟨id,its,?_⟩⟩
  · rw [balance_concat,audited.balanced,its]
    split
    · rename_i same
      cases same
      exact moves
    · rename_i other
      exact (others id' fun same => other (by rw [same])).symm
  · rw [audited.balanced]
    exact totals total

theorem Audited.update (audited : Audited b) (known : b.index.lookup tx.id = some tx) (its : event.tx = some tx.id)
    (moves : Account.post ⟨tx.state,tx.files⟩ event = ⟨tx'.state,tx'.files⟩)
    (totals : event.type ∈ [BizEventType.committed,.received,.forwarded] →
      event.fileCount.map (·.toNat) = some tx.files.length ∧
        event.totalBytes.map (·.toNat) = some ((tx.files.map (·.size.toNat)).sum % 2 ^ 64)) :
    Audited ⟨b.index.insert tx.id tx',b.log ++ [event]⟩ := by
  apply audited.record its
  · intro other differs
    exact account_insert_of_ne differs
  · rw [account_known known,account_known (Finmap.lookup_insert _)]
    exact moves
  · rw [account_known known]
    exact totals

theorem totals_of (tx : Transaction) (small : tx.files.length < 2 ^ 32) :
    (some (UInt32.ofNat tx.files.length)).map (·.toNat) = some tx.files.length ∧
      (some tx.totalBytes).map (·.toNat) = some ((tx.files.map (·.size.toNat)).sum % 2 ^ 64) := by
  constructor
  · rw [Option.map_some,UInt32.toNat_ofNat_of_lt' small]
  · rw [Option.map_some,totalBytes_toNat]

theorem post_added {account : Account} {file : FileEntry} (added : event.type = .fileAdded)
    (entry : event.entry = some file) : account.post event = { account with files := upsertFile account.files file } := by
  simp only [Account.post,added,entry]

theorem post_removed {account : Account} {path : RelativePath} (removed : event.type = .fileRemoved)
    (file : event.file = some path.value) :
    account.post event = { account with files := account.files.eraseP fun file => file.path = path } := by
  simp only [Account.post,removed,file,Option.some.injEq,RelativePath.value_injective.eq_iff,eq_comm]

theorem post_committed {account : Account} (closed : event.type = .received ∨ event.type = .committed) :
    account.post event = { account with state := .committed } := by
  rcases closed with type | type <;> simp only [Account.post,type]

theorem BizEvent.entry_eq {file : FileEntry} (path : event.file = some file.path.value) (size : event.size = some file.size)
    (digest : event.sha256 = some file.sha256.toHex) : event.entry = some file := by
  simp [BizEvent.entry,path,size,digest,Except.toOption]

theorem Opens.audited (opens : Opens opts env op tx) (absent : b.index.lookup tx.id = none) (audited : Audited b) :
    Audited ⟨b.index.insert tx.id tx,op.posts sha256 pending tx b.log⟩ := by
  have new : Index.account (b.index.insert tx.id tx) tx.id = Index.account b.index tx.id := by
    rw [account_absent absent,account_known (Finmap.lookup_insert _)]
    cases opens <;> rfl
  have all : ∀ id, Index.account (b.index.insert tx.id tx) id = Index.account b.index id := by
    intro id
    by_cases same : id = tx.id
    · exact same ▸ new
    · exact account_insert_of_ne same
  cases opens with
  | created => exact audited.record rfl (fun other _ => all other) (all _).symm (by simp [eventFor])
  | received => exact ⟨fun id => (audited.balanced id).trans (all id).symm,audited.counts⟩

theorem Updates.audited (updates : Updates sha256 opts env pending op tx tx') (stays : ∀ id, ¬ Drops op id)
    (known : b.index.lookup tx.id = some tx) (small : tx.files.length < 2 ^ 32) (audited : Audited b) :
    Audited ⟨b.index.insert tx.id tx',op.posts sha256 pending tx' b.log⟩ := by
  cases updates with
  | uploaded here its isOpen progress agreed =>
    rw [Op.posts,here]
    exact audited.update known rfl (post_added rfl (BizEvent.entry_eq rfl rfl rfl)) (by simp [eventFor])
  | erased allowed isOpen listed => exact audited.update known rfl (post_removed rfl rfl) (by simp [eventFor])
  | committed allowed isOpen =>
    refine audited.update known rfl (post_committed ?_) fun _ => totals_of tx small
    dsimp only [eventFor]
    split
    · exact .inl rfl
    · exact .inr rfl
  | delivered sent => exact audited.update known rfl rfl fun _ => totals_of tx small
  | retained => exact audited.update known rfl rfl (by simp [eventFor])
  | marked drops => exact absurd drops (stays _)

theorem Drops.audited (drops : Drops op tx.id) (named : tx'.id = tx.id) (audited : Audited b) :
    Audited ⟨b.index.erase tx.id,op.posts sha256 pending tx' b.log⟩ := by
  have gone : Index.account (b.index.erase tx.id) tx'.id = .empty := named ▸ account_absent (Finmap.lookup_erase _ _)
  have others : ∀ other ≠ tx'.id, Index.account (b.index.erase tx.id) other = Index.account b.index other :=
    fun other differs => account_erase_of_ne (named ▸ differs)
  generalize tx.id = id at drops gone others
  cases drops with
  | expired => exact audited.record rfl others gone.symm (by simp [eventFor])
  | deleted => exact audited.record rfl others gone.symm (by simp [eventFor])

theorem Posts.audited {result : Result Unit} (posts : Posts sha256 opts env pending op result b b')
    (small : Throughout (fun _ tx => tx.files.length < 2 ^ 32) b.index)
    (gone : ∀ id, Drops op id → b'.index.lookup id = none) (audited : Audited b) : Audited b' := by
  cases posts with
  | opened opens absent => exact opens.audited absent audited
  | updated known updates stays => exact updates.audited stays known (small _ _ known) audited
  | dropped known drops expired => exact drops.audited (by rw [expired]) audited
  | streamed part => exact audited
  | refused e => exact audited
  | marked e known drops updates =>
    have gone := gone _ drops
    rw [Finmap.lookup_insert] at gone
    contradiction

/-- What a failed operation reports is not in the log. -/
theorem Posts.silent {e : Error} (posts : Posts sha256 opts env pending op (.error e) b b') : b'.log = b.log := by
  cases posts <;> rfl

/-- What carries the run: no fault has left a removal half done, so log and index agree. -/
structure Accounted [BoostJson] (sha256 : Bytes → Sha256Digest) (s : Server) : Prop where
  healthy : Healthy sha256 none s
  orderly : Orderly s
  audited : Audited s.world.book

theorem Accounted.step [BoostJson] (accounted : Accounted sha256 s) (faultless : env.Faultless)
    (small : Throughout (fun _ tx => tx.files.length < 2 ^ 32) s.world.index) :
    Accounted sha256 (s.step sha256 opts env op) := by
  obtain ⟨⟨posts,_⟩,_⟩ := step_posts sha256 opts env accounted.orderly.keyed op
  exact ⟨step_healthy accounted.healthy faultless op,step_orderly accounted.orderly op,
    posts.audited small (fun id drops => step_drops accounted.healthy faultless drops) accounted.audited⟩

/-- In every faultless run the log tells exactly what is stored: failed operations leave no record, the records of a
transaction make up its state and files, and the totals in them are right. -/
theorem log_is_faithful [BoostJson] (sha256 : Bytes → Sha256Digest) (opts : ServiceOptions) (steps : List (Env × Op))
    (faultless : ∀ step ∈ steps, step.1.Faultless) (small : Server.empty.Along sha256 opts
      (fun s _ _ => Throughout (fun _ tx => tx.files.length < 2 ^ 32) s.world.index) steps) :
    (∀ before env op after e, steps = before ++ (env,op) :: after →
        (Server.empty.run sha256 opts before).reply sha256 opts env op = .error e →
        (Server.empty.run sha256 opts (before ++ [(env,op)])).world.log = (Server.empty.run sha256 opts before).world.log) ∧
      (∀ id tx, (Server.empty.run sha256 opts steps).world.index.lookup id = some tx →
        balance (Server.empty.run sha256 opts steps).world.log id = ⟨tx.state,tx.files⟩) ∧
      Counts (Server.empty.run sha256 opts steps).world.log := by
  have along := Runs.Along.and faultless small
  have initial : Accounted sha256 Server.empty :=
    ⟨empty_healthy sha256,empty_orderly,fun _ => rfl,fun before event after split => by simp [Server.empty,World.book] at split⟩
  have preserved : ∀ s (step : Env × Op), Accounted sha256 s → step.1.Faultless ∧
      Throughout (fun _ tx => tx.files.length < 2 ^ 32) s.world.index → Accounted sha256 (s.step sha256 opts step.1 step.2) :=
    fun s step accounted ok => accounted.step ok.1 ok.2
  refine ⟨?_,?_⟩
  · intro before env op after e split failed
    obtain ⟨accounted,_⟩ := along.before (Accounted sha256) preserved initial split
    obtain ⟨⟨posts,_⟩,_⟩ := step_posts sha256 opts env accounted.orderly.keyed op
    rw [run_append]
    exact Posts.silent (failed ▸ posts)
  · have ends : Accounted sha256 (Server.empty.run sha256 opts steps) := along.invariant (Accounted sha256) preserved initial
    exact ⟨fun id tx known => (ends.audited.balanced id).trans (account_known known),ends.audited.counts⟩

theorem throughout_of_keys {P : TransactionId → Transaction → Prop} {i : Index}
    (all : ∀ id ∈ i.keys, ∀ tx ∈ i.lookup id, P id tx) : Throughout P i :=
  fun id tx known => all id (Finmap.mem_keys.mpr (Finmap.mem_of_lookup_eq_some known)) tx known

theorem log_tells_of_commit : balance (Server.empty.run Sample.sha256 Sample.opts lateUploadRun).world.log Sample.id =
      ⟨.committed,[⟨Sample.path,0,Sample.sha256 []⟩]⟩ := by
  obtain ⟨_,balanced,_⟩ := log_is_faithful Sample.sha256 Sample.opts lateUploadRun
    (by simp [lateUploadRun,uploadRun,Sample.env_faultless])
    ⟨throughout_of_keys (by decide +kernel),throughout_of_keys (by decide +kernel),throughout_of_keys (by decide +kernel),
      throughout_of_keys (by decide +kernel),throughout_of_keys (by decide +kernel),trivial⟩
  exact balanced Sample.id committedTransaction (by decide +kernel)

end Confide
