/-
# A key that opens the backup is heard

Whatever the schedule of the three threads of `decrypt`, a key that opens the backup, once it
is in the channel of keys, is never answered with the error for a wrong key or for no key
(`not_missed_of_returned`): what the main thread returns is a document, or an error that has
a cause of its own.

The invariant has two halves. The threads say that a key is missing, or fall silent, only
when the channel of keys is closed and empty (`Heard`); and as long as the key was not
found to open the backup, it waits in the channel or is being tried (`Pending`).
-/

import Bip138.Front.Returns
import Bip138.Cli.Verdicts

namespace Bip138.Cli

open Bip138.Rust Bip138.Ll

/-! ## A key that opens the backup is heard -/

/-- The error for no key, or for a wrong one. -/
def Missed (result : Exec CliError Bytes) : Prop :=
  result = .fail .noKeys ∨ result = .fail (.failedToDecrypt .wrongKey)

/-- A document or an error is on the document channel, was received, or is about to be
sent by the fetch thread. -/
inductive Told (threads : Threads) : Prop
  | reporting (cause : FetchFailed) (hat : threads.fetch = .reporting cause)
  | waiting (message : Message) (documents : List Message)
      (hqueue : threads.documents = message :: documents)
  | stopping (message : Option Message) (hat : threads.main = .stopping message)
  | returned (result : Exec CliError Bytes) (hat : threads.main = .returned result)

/-- Every key that was sent has been taken out of its channel, and none can follow. -/
def Closed (threads : Threads) : Prop :=
  threads.keys = [] ∧ threads.main.holdsKeySender = false ∧ threads.fetch.holdsSenders = false

/-- The main thread has not spawned the fetch thread. -/
def MainThread.Spawns : MainThread → Prop
  | .sendingKey _ | .storingStop | .spawning => True
  | .droppingKeySender | .droppingDocumentSender | .receiving | .stopping _ | .returned _ => False

/-- The threads say that a key is missing or wrong, or fall silent, only if they are
excused. -/
structure Heard (excused : Prop) (threads : Threads) : Prop where
  documents : ∀ message ∈ threads.documents, Missed (received (some message)) → excused
  stopping : ∀ message, threads.main = .stopping message → Missed (received message) → excused
  result : ∀ result, threads.main = .returned result → Missed result → excused
  outcome : ∀ message, threads.decrypt = .storing message ∨ threads.decrypt = .sending message →
    ¬ Missed message ∧ message.Returns
  stop : threads.stop = true → threads.decrypt.holdsKeyReceiver = true →
    (∃ message, threads.decrypt = .sending message) ∨ Told threads
  ended : ∀ sawKey, threads.decrypt = .ended sawKey → (threads.stop = true ∧ Told threads) ∨ excused
  refusing : ∀ cause, threads.decrypt = .refusing cause → excused
  silent : threads.decrypt = .returned → Told threads ∨ excused
  spawn : threads.main.Spawns → threads.fetch = .unspawned
  mainStops : threads.main = .storingStop → threads.decrypt.holdsKeyReceiver = false
  fetchStops : ∀ device rest, threads.fetch = .storingStop device rest →
    threads.decrypt.holdsKeyReceiver = false

section Hearing

variable {excused excused' : Prop} {threads later : Threads}

theorem Heard.mono (hheard : Heard excused threads) (hexcuse : excused → excused') :
    Heard excused' threads where
  documents message hmessage hmissed := hexcuse (hheard.documents message hmessage hmissed)
  stopping message hat hmissed := hexcuse (hheard.stopping message hat hmissed)
  result result hat hmissed := hexcuse (hheard.result result hat hmissed)
  outcome := hheard.outcome
  stop := hheard.stop
  ended sawKey hat := (hheard.ended sawKey hat).imp_right hexcuse
  refusing cause hat := hexcuse (hheard.refusing cause hat)
  silent hat := (hheard.silent hat).imp_right hexcuse
  spawn := hheard.spawn
  mainStops := hheard.mainStops
  fetchStops := hheard.fetchStops

/-- Who was told stays told. -/
theorem Told.mainStep (htold : Told threads)
    (hspawn : threads.main.Spawns → threads.fetch = .unspawned)
    (hstep : mainStep threads = some later) : Told later := by
  revert hstep
  fun_cases Cli.mainStep threads with
  | case1 _ hmain | case2 _ hmain | case3 hmain | case5 hmain | case6 hmain =>
      rintro ⟨⟩
      cases htold with
      | reporting cause hat => exact .reporting cause hat
      | waiting message documents hqueue => exact .waiting message documents hqueue
      | stopping message hat | returned result hat => rw [hmain] at hat; cases hat
  | case4 hmain =>
      rintro ⟨⟩
      cases htold with
      | reporting cause hat =>
          rw [hspawn (by rw [hmain]; trivial)] at hat
          cases hat
      | waiting message documents hqueue => exact .waiting message documents hqueue
      | stopping message hat | returned result hat => rw [hmain] at hat; cases hat
  | case7 hmain message documents hqueue =>
      rintro ⟨⟩
      exact .stopping (some message) rfl
  | case9 =>
      rintro ⟨⟩
      exact .stopping none rfl
  | case10 message hmain =>
      rintro ⟨⟩
      exact .returned (received message) rfl
  | case8 | case11 => exact fun hstep => by cases hstep

/-- The main thread gives up only when the decrypt thread is silent without having been
told. -/
theorem Heard.excused_of_givesUp (hheard : Heard excused threads)
    (hmain : threads.main = .receiving) (hdocuments : threads.documents = [])
    (hsenders : ¬ (threads.decrypt.holdsDocumentSender || threads.fetch.holdsSenders) = true) :
    excused := by
  rw [Bool.or_eq_true, not_or, Bool.not_eq_true, Bool.not_eq_true] at hsenders
  have hreturned : threads.decrypt = .returned := by
    revert hsenders
    cases threads.decrypt with
    | returned => exact fun _ => rfl
    | _ => exact fun hsenders => by cases hsenders.1
  rcases hheard.silent hreturned with htold | hexcused
  · cases htold with
    | reporting cause hat =>
        rw [hat] at hsenders
        cases hsenders.2
    | waiting message documents hqueue =>
        rw [hdocuments] at hqueue
        cases hqueue
    | stopping message hat | returned result hat => rw [hmain] at hat; cases hat
  · exact hexcused

theorem Heard.mainStep (hheard : Heard excused threads) (hstep : mainStep threads = some later) :
    Heard excused later := by
  have htold : Told threads → Told later := fun htold => htold.mainStep hheard.spawn hstep
  have hsilent : threads.decrypt = .returned → Told later ∨ excused :=
    fun hat => (hheard.silent hat).imp_left htold
  have hended : ∀ sawKey, threads.decrypt = .ended sawKey →
      (threads.stop = true ∧ Told later) ∨ excused :=
    fun sawKey hat => (hheard.ended sawKey hat).imp_left (And.imp_right htold)
  have hstop : threads.stop = true → threads.decrypt.holdsKeyReceiver = true →
      (∃ message, threads.decrypt = .sending message) ∨ Told later :=
    fun hstop hreceiver => (hheard.stop hstop hreceiver).imp_right htold
  revert hstep
  fun_cases Cli.mainStep threads with
  | case1 key hmain hopen =>
      rintro ⟨⟩
      exact { hheard with
        stopping := fun _ hat => by cases hat
        result := fun _ hat => by cases hat
        stop := hstop
        ended := hended
        silent := hsilent
        spawn := fun _ => hheard.spawn (by rw [hmain]; trivial)
        mainStops := fun hat => by cases hat }
  | case2 key hmain hclosed =>
      rintro ⟨⟩
      exact { hheard with
        stopping := fun _ hat => by cases hat
        result := fun _ hat => by cases hat
        stop := hstop
        ended := hended
        silent := hsilent
        spawn := fun _ => hheard.spawn (by rw [hmain]; trivial)
        mainStops := fun _ => Bool.eq_false_iff.mpr hclosed }
  | case3 hmain =>
      rintro ⟨⟩
      exact { hheard with
        stopping := fun _ hat => by cases hat
        result := fun _ hat => by cases hat
        stop := fun _ hreceiver => by
          rw [hheard.mainStops hmain] at hreceiver
          cases hreceiver
        ended := fun sawKey hat => (hended sawKey hat).imp_left fun htold => ⟨rfl, htold.2⟩
        silent := hsilent
        spawn := fun _ => hheard.spawn (by rw [hmain]; trivial)
        mainStops := fun hat => by cases hat }
  | case4 hmain =>
      rintro ⟨⟩
      exact { hheard with
        stopping := fun _ hat => by cases hat
        result := fun _ hat => by cases hat
        stop := hstop
        ended := hended
        silent := hsilent
        spawn := False.elim
        mainStops := fun hat => by cases hat
        fetchStops := fun _ _ hat => by cases hat }
  | case5 hmain | case6 hmain =>
      rintro ⟨⟩
      exact { hheard with
        stopping := fun _ hat => by cases hat
        result := fun _ hat => by cases hat
        stop := hstop
        ended := hended
        silent := hsilent
        spawn := False.elim
        mainStops := fun hat => by cases hat }
  | case7 hmain message documents hqueue =>
      rintro ⟨⟩
      have hdocuments := hheard.documents
      rw [hqueue] at hdocuments
      exact { hheard with
        documents := fun other hother => hdocuments other (List.mem_cons_of_mem message hother)
        stopping := fun other hat => by
          cases hat
          exact hdocuments message List.mem_cons_self
        result := fun _ hat => by cases hat
        stop := hstop
        ended := hended
        silent := hsilent
        spawn := False.elim
        mainStops := fun hat => by cases hat }
  | case9 hmain hqueue hsenders =>
      rintro ⟨⟩
      exact { hheard with
        stopping := fun _ _ _ => hheard.excused_of_givesUp hmain hqueue hsenders
        result := fun _ hat => by cases hat
        stop := hstop
        ended := hended
        silent := hsilent
        spawn := False.elim
        mainStops := fun hat => by cases hat }
  | case10 message hmain =>
      rintro ⟨⟩
      exact { hheard with
        stopping := fun _ hat => by cases hat
        result := fun result hat => by
          cases hat
          exact hheard.stopping message hmain
        stop := fun _ _ => .inr (.returned _ rfl)
        ended := fun sawKey hat => (hended sawKey hat).imp_left fun htold => ⟨rfl, htold.2⟩
        silent := hsilent
        spawn := False.elim
        mainStops := fun hat => by cases hat }
  | case8 | case11 => exact fun hstep => by cases hstep

/-- One more message is a message. -/
theorem told_of_append {stop : Bool} {keys : List PublicKey} {documents : List Message}
    {main : MainThread} {decrypt : DecryptThread} {fetch : FetchThread} (message : Message) :
    Told ⟨stop, keys, documents ++ [message], main, decrypt, fetch⟩ := by
  cases documents with
  | nil => exact .waiting message [] rfl
  | cons first documents => exact .waiting first (documents ++ [message]) rfl

theorem Told.fetchStep {collector : Collector} {action : Action} (htold : Told threads)
    (hstep : fetchStep collector threads action = some later) : Told later := by
  by_cases hreporting : ∃ cause, threads.fetch = .reporting cause
  · obtain ⟨stop, keys, documents, main, decrypt, fetch⟩ := threads
    obtain ⟨cause, rfl⟩ := hreporting
    cases action with
    | fetch =>
        obtain rfl := Option.some.inj hstep
        exact told_of_append _
    | main | decrypt | listed _ | answered _ => cases hstep
  · have hkept : later.documents = threads.documents ∧ later.main = threads.main := by
      revert hstep
      fun_cases Cli.fetchStep collector threads action with
      | case18 cause hat => exact absurd ⟨cause, hat⟩ hreporting
      | case19 => exact fun hstep => by cases hstep
      | _ =>
          rintro ⟨⟩
          exact ⟨rfl, rfl⟩
    cases htold with
    | reporting cause hat => exact absurd ⟨cause, hat⟩ hreporting
    | waiting message documents hqueue => exact .waiting message documents (hkept.1.trans hqueue)
    | stopping message hat => exact .stopping message (hkept.2.trans hat)
    | returned result hat => exact .returned result (hkept.2.trans hat)

/-- The fetch thread goes on, maybe with a key that it sends. -/
theorem Heard.moves (hheard : Heard excused threads) {keys : List PublicKey} {fetch : FetchThread}
    (hspawned : threads.fetch ≠ .unspawned)
    (htold : Told threads → Told { threads with keys, fetch })
    (hstops : ∀ device rest, fetch = .storingStop device rest →
      threads.decrypt.holdsKeyReceiver = false) : Heard excused { threads with keys, fetch } :=
  { hheard with
    stop := fun hstop hreceiver => (hheard.stop hstop hreceiver).imp_right htold
    ended := fun sawKey hat => (hheard.ended sawKey hat).imp_left (And.imp_right htold)
    silent := fun hat => (hheard.silent hat).imp_left htold
    spawn := fun hspawns => absurd (hheard.spawn hspawns) hspawned
    fetchStops := hstops }

theorem not_storingStop_notFetched (device : DeviceKind) (path : DerivationPath) (expect : Expect)
    (rest : List (DerivationPath × Expect)) (error : String) (device' : DeviceKind)
    (rest' : List (DerivationPath × Expect)) :
    notFetched device path expect rest error ≠ .storingStop device' rest' := by
  cases expect with
  | promptUser | mustFetch | canFail => exact fun hsame => by cases hsame

theorem not_storingStop_unlockBitbox (collector : Collector) (device device' : DeviceKind)
    (rest' : List (DerivationPath × Expect)) :
    unlockBitbox collector device ≠ .storingStop device' rest' := by
  cases device with
  | bitBox02 | coldcard | ledger | ledgerSimulator | specter | specterSimulator | jade =>
      exact fun hsame => by cases hsame

theorem Heard.fetchStep {collector : Collector} {action : Action} (hheard : Heard excused threads)
    (hstep : fetchStep collector threads action = some later) : Heard excused later := by
  have htold : Told threads → Told later := fun htold => htold.fetchStep hstep
  revert hstep
  fun_cases Cli.fetchStep collector threads action with
  | case1 hat | case2 hat | case3 hat | case5 _ hat | case6 _ hat | case7 hat | case8 _ hat
  | case9 _ _ _ _ hat | case10 _ _ _ _ hat | case11 _ _ _ _ _ hat | case14 _ _ _ hat =>
      rintro ⟨⟩
      exact hheard.moves (fun hsame => by cases hat.symm.trans hsame) htold
        fun _ _ hsame => by cases hsame
  | case4 device hat =>
      rintro ⟨⟩
      exact hheard.moves (fun hsame => by cases hat.symm.trans hsame) htold fun _ _ hsame =>
        absurd hsame (not_storingStop_unlockBitbox collector device _ _)
  | case12 device path expect rest error hat =>
      rintro ⟨⟩
      exact hheard.moves (fun hsame => by cases hat.symm.trans hsame) htold fun _ _ hsame =>
        absurd hsame (not_storingStop_notFetched device path expect rest error _ _)
  | case13 device path expect rest hat =>
      rintro ⟨⟩
      exact hheard.moves (fun hsame => by cases hat.symm.trans hsame) htold fun _ _ hsame =>
        absurd hsame (not_storingStop_notFetched device path expect rest "Timed out" _ _)
  | case15 key device rest hat hclosed =>
      rintro ⟨⟩
      exact hheard.moves (fun hsame => by cases hat.symm.trans hsame) htold
        fun _ _ _ => Bool.eq_false_iff.mpr hclosed
  | case16 device rest hat =>
      rintro ⟨⟩
      exact { hheard with
        stop := fun _ hreceiver => by
          rw [hheard.fetchStops device rest hat] at hreceiver
          cases hreceiver
        ended := fun sawKey hended => (hheard.ended sawKey hended).imp_left
          fun hearlier => ⟨rfl, htold hearlier.2⟩
        silent := fun hsilent => (hheard.silent hsilent).imp_left htold
        spawn := fun hspawns => by cases hat.symm.trans (hheard.spawn hspawns)
        fetchStops := fun _ _ hsame => by cases hsame }
  | case17 cause hat =>
      rintro ⟨⟩
      exact { hheard with
        stop := fun _ _ => .inr (.reporting cause rfl)
        ended := fun sawKey hended => (hheard.ended sawKey hended).imp_left
          fun hearlier => ⟨rfl, htold hearlier.2⟩
        silent := fun hsilent => (hheard.silent hsilent).imp_left htold
        spawn := fun hspawns => by cases hat.symm.trans (hheard.spawn hspawns)
        fetchStops := fun _ _ hsame => by cases hsame }
  | case18 cause hat =>
      rintro ⟨⟩
      exact { hheard with
        documents := fun message hmessage hmissed => by
          rcases List.mem_append.mp hmessage with hold | hnew
          · exact hheard.documents message hold hmissed
          · obtain rfl := List.mem_singleton.mp hnew
            rcases hmissed with hmissed | hmissed <;> cases hmissed
        stop := fun _ _ => .inr (told_of_append _)
        ended := fun sawKey hended => (hheard.ended sawKey hended).imp_left
          fun hearlier => ⟨hearlier.1, htold hearlier.2⟩
        silent := fun hsilent => (hheard.silent hsilent).imp_left htold
        spawn := fun hspawns => by cases hat.symm.trans (hheard.spawn hspawns)
        fetchStops := fun _ _ hsame => by cases hsame }
  | case19 => exact fun hstep => by cases hstep

theorem told_of_decrypt {stop : Bool} {keys : List PublicKey} {decrypt : DecryptThread}
    (htold : Told threads) : Told { threads with stop, keys, decrypt } := by
  cases htold with
  | reporting cause hat => exact .reporting cause hat
  | waiting message documents hqueue => exact .waiting message documents hqueue
  | stopping message hat => exact .stopping message hat
  | returned result hat => exact .returned result hat

/-- The decrypt thread goes on in its loop. -/
theorem Heard.loops (hheard : Heard excused threads) {keys : List PublicKey}
    {decrypt : DecryptThread} (hloops : decrypt.holdsKeyReceiver = true)
    (hreceiver : threads.decrypt.holdsKeyReceiver = true)
    (hsending : ∀ message, threads.decrypt ≠ .sending message)
    (houtcome : ∀ message, decrypt = .storing message ∨ decrypt = .sending message →
      ¬ Missed message ∧ message.Returns) :
    Heard excused { threads with keys, decrypt } :=
  { hheard with
    outcome := houtcome
    stop := fun hstop _ => by
      rcases hheard.stop hstop hreceiver with ⟨message, hat⟩ | htold
      · exact absurd hat (hsending message)
      · exact .inr (told_of_decrypt htold)
    ended := fun sawKey hended => by
      obtain rfl : decrypt = .ended sawKey := hended
      cases hloops
    refusing := fun cause hrefusing => by
      obtain rfl : decrypt = .refusing cause := hrefusing
      cases hloops
    silent := fun hsilent => by
      obtain rfl : decrypt = .returned := hsilent
      cases hloops
    mainStops := fun hat => by
      rw [hheard.mainStops hat] at hreceiver
      cases hreceiver
    fetchStops := fun device rest hat => by
      rw [hheard.fetchStops device rest hat] at hreceiver
      cases hreceiver }

/-- The decrypt thread is done, having sent a message or having found that one was sent. -/
theorem Heard.ends (hheard : Heard excused threads) {documents : List Message}
    (hdocuments : ∀ message ∈ documents, Missed (received (some message)) → excused)
    (hsilent : Told { threads with documents, decrypt := .returned } ∨ excused) :
    Heard excused { threads with documents, decrypt := .returned } :=
  { hheard with
    documents := hdocuments
    outcome := fun _ hat => by rcases hat with hat | hat <;> cases hat
    stop := fun _ hreceiver => by cases hreceiver
    ended := fun _ hat => by cases hat
    refusing := fun _ hat => by cases hat
    silent := fun _ => hsilent
    mainStops := fun _ => rfl
    fetchStops := fun _ _ _ => rfl }

/-- The loop over the keys ends: the channel is closed, or the flag is set and whoever set
it has told. -/
theorem Heard.leaves (hheard : Heard excused threads) {sawKey : Bool}
    (hended : (threads.stop = true ∧ Told threads) ∨ excused) :
    Heard excused { threads with decrypt := .ended sawKey } :=
  { hheard with
    outcome := fun _ hat => by rcases hat with hat | hat <;> cases hat
    stop := fun _ hreceiver => by cases hreceiver
    ended := fun _ _ => hended.imp_left (And.imp_right told_of_decrypt)
    refusing := fun _ hat => by cases hat
    silent := fun hat => by cases hat
    mainStops := fun _ => rfl
    fetchStops := fun _ _ _ => rfl }

theorem Closed.mainStep (hclosed : Closed threads) (hstep : mainStep threads = some later) :
    Closed later := by
  obtain ⟨hkeys, hmain, hfetch⟩ := hclosed
  revert hstep
  fun_cases Cli.mainStep threads with
  | case1 key hat | case2 key hat | case3 hat | case4 hat | case5 hat =>
      rw [hat] at hmain
      cases hmain
  | case6 | case7 | case9 | case10 =>
      rintro ⟨⟩
      exact ⟨hkeys, rfl, hfetch⟩
  | case8 | case11 => exact fun hstep => by cases hstep

theorem Closed.fetchStep {collector : Collector} {action : Action} (hclosed : Closed threads)
    (hstep : fetchStep collector threads action = some later) : Closed later := by
  obtain ⟨stop, keys, documents, main, decrypt, fetch⟩ := threads
  obtain ⟨-, -, hfetch⟩ := hclosed
  dsimp only at hfetch
  cases fetch with
  | unspawned | returned => cases action <;> cases hstep
  | _ => cases hfetch

/-- A step of the main thread or of the fetch thread takes no key out of the channel. -/
theorem mainStep_keeps (hstep : mainStep threads = some later) :
    (∀ key ∈ threads.keys, key ∈ later.keys) ∧ later.decrypt = threads.decrypt := by
  revert hstep
  fun_cases Cli.mainStep threads with
  | case1 =>
      rintro ⟨⟩
      exact ⟨fun key hkey => List.mem_append_left _ hkey, rfl⟩
  | case8 | case11 => exact fun hstep => by cases hstep
  | _ =>
      rintro ⟨⟩
      exact ⟨fun _ hkey => hkey, rfl⟩

theorem fetchStep_keeps {collector : Collector} {action : Action}
    (hstep : fetchStep collector threads action = some later) :
    (∀ key ∈ threads.keys, key ∈ later.keys) ∧ later.decrypt = threads.decrypt := by
  cases fetchEffect_of_fetchStep hstep with
  | moves | stops | fails | reports => exact ⟨fun _ hkey => hkey, rfl⟩
  | sends => exact ⟨fun key hkey => List.mem_append_left _ hkey, rfl⟩

/-- As long as the loop over the keys runs, the key is in the channel, or it is being tried,
or some key has opened the backup. -/
def Pending (key : PublicKey) (threads : Threads) : Prop :=
  threads.decrypt.holdsKeyReceiver = true →
    key ∈ threads.keys ∨ (∃ sawKey, threads.decrypt = .checking sawKey key) ∨
      threads.decrypt = .trying key ∨
        ∃ message, threads.decrypt = .storing message ∨ threads.decrypt = .sending message

theorem Pending.keeps {key : PublicKey} (hpending : Pending key threads)
    (hkeeps : (∀ key ∈ threads.keys, key ∈ later.keys) ∧ later.decrypt = threads.decrypt) :
    Pending key later := by
  rw [Pending, hkeeps.2]
  exact fun hreceiver => (hpending hreceiver).imp_left (hkeeps.1 key)

end Hearing

section Trying

variable [Target] [Miniscript] [SerdeJson] [Serde DescriptorBackup] [Serde PolicySet]
  [Serde PolicyBackup] [V0] {crypto : Crypto} {backup : EncryptedBackup} {excused : Prop}
  {threads later : Threads} {key : PublicKey}

/-- Decrypting with any one key, and printing, comes to an end. -/
def Decrypts (crypto : Crypto) (backup : EncryptedBackup) : Prop :=
  ∀ key, (decryptDocument crypto (backup.setKeys [key])).Returns

omit [Target] [V0] in
/-- What was decrypted is printed or refused. -/
theorem returns_decryptedToDocument (decrypted : List (Decrypted NoProprietary)) :
    (decryptedToDocument decrypted).Returns := by
  refine Exec.returns_foldlM (fun _ _ => True) (fun rest document value _ => ?_) trivial
  refine ⟨Exec.Returns.bind ?_ fun _ _ => Exec.returns_ok _, fun _ _ => trivial⟩
  cases value with
  | descriptor | string | bip138 => exact Exec.returns_ok _
  | policy | labels | walletBackup | raw | proprietary => exact Exec.returns_fail _
  | descriptorBackup backup => exact (Exec.returns_okOr _ _).mapErr _
  | policyBackup backup =>
      rw [decryptedToBytes, PolicyBackup.toPayload]
      split
      · exact (Exec.returns_okOr _ _).mapErr _
      · exact (Exec.returns_okOr _ _).mapErr _

/-- What was loaded from bytes in memory can be tried with every key. -/
theorem decrypts_of_setEncryptedPayload [Base64] (hbase64 : EncryptedMetadata.Base64Shrinks)
    (htemplates : TemplatesFit) (hcrypto : OpensInMemory crypto) {bytes : Bytes}
    (hfits : bytes.length ≤ isizeMax)
    (hload : EncryptedBackup.new.setEncryptedPayload bytes = .ok backup) :
    Decrypts crypto backup := by
  intro key
  have hmemory : backup.InMemory := inMemory_of_setEncryptedPayload hbase64 hfits hload
  have hdecrypt : ((backup.setKeys [key]).decryptWith (P := NoProprietary) crypto).Returns :=
    returns_decryptWith htemplates hcrypto returns_parse_noProprietary hmemory
  exact (hdecrypt.mapErr _).bind fun decrypted _ => returns_decryptedToDocument decrypted

/-- A key that is tried is one of another backup, or opens this one. -/
theorem tryKey_cases (hreturns : Decrypts crypto backup) (key : PublicKey) :
    (tryKey crypto backup key = .waiting true ∧
        (decryptDocument crypto (backup.setKeys [key]) = .fail (.failedToDecrypt .wrongKey) ∨
          decryptDocument crypto (backup.setKeys [key]) = .fail (.failedToDecrypt .noKey))) ∨
      ∃ message, tryKey crypto backup key = .storing message ∧
        decryptDocument crypto (backup.setKeys [key]) = message ∧ ¬ Missed message := by
  have hreturns := hreturns key
  fun_cases tryKey crypto backup key with
  | case1 decrypted hdecrypt =>
      refine .inr ⟨_, rfl, ?_, fun hmissed => ?_⟩
      · rw [decryptDocument, hdecrypt]
        rfl
      · rcases hmissed with hmissed | hmissed
        · exact decryptedToDocument_ne_fail (.inl rfl) hmissed
        · exact decryptedToDocument_ne_fail (.inr rfl) hmissed
  | case2 hdecrypt =>
      refine .inl ⟨rfl, .inl ?_⟩
      rw [decryptDocument, hdecrypt]
      rfl
  | case3 hdecrypt =>
      refine .inl ⟨rfl, .inr ?_⟩
      rw [decryptDocument, hdecrypt]
      rfl
  | case4 cause hwrong hnone hdecrypt =>
      refine .inr ⟨_, rfl, ?_, fun hmissed => ?_⟩
      · rw [decryptDocument, hdecrypt]
        rfl
      · rcases hmissed with hmissed | hmissed
        · cases hmissed
        · rw [Exec.fail_inj, CliError.failedToDecrypt.injEq] at hmissed
          exact hwrong hmissed
  | case5 cause hdecrypt =>
      rw [decryptDocument, hdecrypt] at hreturns
      exact absurd hreturns (Exec.not_returns_abort cause)
  | case6 hdecrypt =>
      rw [decryptDocument, hdecrypt] at hreturns
      rcases hreturns with ⟨document, hok⟩ | ⟨cause, hfail⟩
      · cases hok
      · cases hfail

theorem Heard.decryptStep (hheard : Heard excused threads) (hreturns : Decrypts crypto backup)
    (hexcuse : ∀ sawKey, threads.decrypt = .waiting sawKey → Closed threads → excused)
    (hstep : decryptStep crypto backup threads = some later) : Heard excused later := by
  revert hstep
  fun_cases Cli.decryptStep crypto backup threads with
  | case1 sawKey hat key keys hqueue =>
      rintro ⟨⟩
      exact hheard.loops rfl (by rw [hat]; rfl) (fun _ hsame => by cases hat.symm.trans hsame)
        fun _ hother => by rcases hother with hother | hother <;> cases hother
  | case3 sawKey hat hqueue hsenders =>
      rintro ⟨⟩
      rw [Bool.or_eq_true, not_or, Bool.not_eq_true, Bool.not_eq_true] at hsenders
      exact hheard.leaves (.inr (hexcuse sawKey hat ⟨hqueue, hsenders⟩))
  | case4 sawKey key hat hstop =>
      rintro ⟨⟩
      rcases hheard.stop hstop (by rw [hat]; rfl) with ⟨message, hsending⟩ | htold
      · rw [hat] at hsending
        cases hsending
      · exact hheard.leaves (.inl ⟨hstop, htold⟩)
  | case5 sawKey key hat hrunning =>
      rintro ⟨⟩
      exact hheard.loops rfl (by rw [hat]; rfl) (fun _ hsame => by cases hat.symm.trans hsame)
        fun _ hother => by rcases hother with hother | hother <;> cases hother
  | case6 key hat =>
      rintro ⟨⟩
      rcases tryKey_cases hreturns key with ⟨htry, -⟩ | ⟨message, htry, hmessage, hmissed⟩
      · rw [htry]
        exact hheard.loops rfl (by rw [hat]; rfl) (fun _ hsame => by cases hat.symm.trans hsame)
          fun _ hother => by rcases hother with hother | hother <;> cases hother
      · rw [htry]
        refine hheard.loops rfl (by rw [hat]; rfl) (fun _ hsame => by cases hat.symm.trans hsame)
          fun other hother => ?_
        rcases hother with hother | hother
        · cases hother
          exact ⟨hmissed, hmessage ▸ hreturns key⟩
        · cases hother
  | case7 message hat =>
      rintro ⟨⟩
      have houtcome := hheard.outcome message (.inl hat)
      exact { hheard with
        outcome := fun other hother => by
          rcases hother with hother | hother
          · cases hother
          · cases hother
            exact houtcome
        stop := fun _ _ => .inl ⟨message, rfl⟩
        ended := fun _ hended => by cases hended
        refusing := fun _ hrefusing => by cases hrefusing
        silent := fun hsilent => by cases hsilent
        mainStops := fun hmain => by
          have hreceiver := hheard.mainStops hmain
          rw [hat] at hreceiver
          cases hreceiver
        fetchStops := fun device rest hfetch => by
          have hreceiver := hheard.fetchStops device rest hfetch
          rw [hat] at hreceiver
          cases hreceiver }
  | case8 document hat =>
      rintro ⟨⟩
      refine hheard.ends (fun message hmessage hmissed => ?_) (.inl (told_of_append _))
      rcases List.mem_append.mp hmessage with hold | hnew
      · exact hheard.documents message hold hmissed
      · obtain rfl := List.mem_singleton.mp hnew
        exact absurd hmissed (hheard.outcome _ (.inr hat)).1
  | case9 cause hat =>
      rintro ⟨⟩
      refine hheard.ends (fun message hmessage hmissed => ?_) (.inl (told_of_append _))
      rcases List.mem_append.mp hmessage with hold | hnew
      · exact hheard.documents message hold hmissed
      · obtain rfl := List.mem_singleton.mp hnew
        exact absurd hmissed (hheard.outcome _ (.inr hat)).1
  | case10 cause hat =>
      exact absurd (hheard.outcome _ (.inr hat)).2 (Exec.not_returns_abort cause)
  | case11 hat =>
      rcases (hheard.outcome _ (.inr hat)).2 with ⟨_, hok⟩ | ⟨_, hfail⟩
      · cases hok
      · cases hfail
  | case12 sawKey hat hstop =>
      rintro ⟨⟩
      exact hheard.ends hheard.documents ((hheard.ended sawKey hat).imp_left fun htold =>
        told_of_decrypt htold.2)
  | case13 sawKey hat hrunning =>
      rintro ⟨⟩
      have hexcused : excused := (hheard.ended sawKey hat).resolve_left fun hstopped =>
        hrunning hstopped.1
      exact { hheard with
        outcome := fun _ hother => by rcases hother with hother | hother <;> cases hother
        stop := fun _ hreceiver => by cases hreceiver
        ended := fun _ hended => by cases hended
        refusing := fun _ _ => hexcused
        silent := fun hsilent => by cases hsilent
        mainStops := fun _ => rfl
        fetchStops := fun _ _ _ => rfl }
  | case14 cause hat =>
      rintro ⟨⟩
      exact hheard.ends (fun _ _ _ => hheard.refusing cause hat) (.inr (hheard.refusing cause hat))
  | case2 | case15 => exact fun hstep => by cases hstep

theorem Closed.decryptStep (hclosed : Closed threads)
    (hstep : decryptStep crypto backup threads = some later) : Closed later := by
  obtain ⟨hkeys, hsenders⟩ := hclosed
  revert hstep
  fun_cases Cli.decryptStep crypto backup threads with
  | case1 sawKey hat key keys hqueue =>
      rw [hqueue] at hkeys
      cases hkeys
  | case2 | case15 => exact fun hstep => by cases hstep
  | _ =>
      rintro ⟨⟩
      exact ⟨hkeys, hsenders⟩

theorem Pending.decryptStep (hpending : Pending key threads) (hreturns : Decrypts crypto backup)
    {document : Bytes} (hopens : decryptDocument crypto (backup.setKeys [key]) = .ok document)
    (hstep : decryptStep crypto backup threads = some later) : Pending key later := by
  revert hstep
  fun_cases Cli.decryptStep crypto backup threads with
  | case1 sawKey hat first keys hqueue =>
      rintro ⟨⟩ -
      rcases hpending (by rw [hat]; rfl) with hkey | ⟨_, hother⟩ | hother | ⟨_, hother | hother⟩
      · rw [hqueue] at hkey
        rcases List.mem_cons.mp hkey with rfl | hlater
        · exact .inr (.inl ⟨sawKey, rfl⟩)
        · exact .inl hlater
      all_goals
        rw [hat] at hother
        cases hother
  | case5 sawKey first hat hrunning =>
      rintro ⟨⟩ -
      rcases hpending (by rw [hat]; rfl) with hkey | ⟨_, hother⟩ | hother | ⟨_, hother | hother⟩
      · exact .inl hkey
      · rw [hat] at hother
        cases hother
        exact .inr (.inr (.inl rfl))
      all_goals
        rw [hat] at hother
        cases hother
  | case6 first hat =>
      rintro ⟨⟩ -
      rcases hpending (by rw [hat]; rfl) with hkey | ⟨_, hother⟩ | hother | ⟨_, hother | hother⟩
      · exact .inl hkey
      · rw [hat] at hother
        cases hother
      · rw [hat] at hother
        cases hother
        rcases tryKey_cases hreturns key with ⟨-, hshut⟩ | ⟨message, htry, -⟩
        · rw [hopens] at hshut
          rcases hshut with hshut | hshut <;> cases hshut
        · exact .inr (.inr (.inr ⟨message, .inl htry⟩))
      all_goals
        rw [hat] at hother
        cases hother
  | case7 message hat =>
      rintro ⟨⟩ -
      exact .inr (.inr (.inr ⟨message, .inr rfl⟩))
  | case2 | case15 => exact fun hstep => by cases hstep
  | _ =>
      rintro ⟨⟩ hreceiver
      cases hreceiver

end Trying

section Runs

variable [Target] [Miniscript] [SerdeJson] [Serde DescriptorBackup] [Serde PolicySet]
  [Serde PolicyBackup] [V0] {crypto : Crypto} {backup : EncryptedBackup} {collector : Collector}
  {allowed : Threads → Action → Prop} {file : Option DescriptorPublicKey}
  {threads later : Threads} {key : PublicKey}

omit [Target] [Miniscript] [SerdeJson] [Serde DescriptorBackup] [Serde PolicySet]
  [Serde PolicyBackup] [V0] in
/-- The only thing that is returned at once is an error in the key file. -/
theorem heard_start (file : Option DescriptorPublicKey) :
    Heard (Closed (start file)) (start file) where
  documents _ hmessage := absurd hmessage List.not_mem_nil
  stopping message hat := by
    cases file with
    | none => cases hat
    | some key =>
        dsimp only [start] at hat
        split at hat <;> cases hat
  result result hat _ := by
    cases file with
    | none => cases hat
    | some key =>
        refine ⟨rfl, ?_, rfl⟩
        rw [hat]
        rfl
  outcome _ hat := by rcases hat with hat | hat <;> cases hat
  stop hstop _ := nomatch hstop
  ended _ hat := nomatch hat
  refusing _ hat := nomatch hat
  silent hat := nomatch hat
  spawn _ := rfl
  mainStops hat := by
    cases file with
    | none => cases hat
    | some key =>
        dsimp only [start] at hat
        split at hat <;> cases hat
  fetchStops _ _ hat := nomatch hat

/-- Before its channel is closed, nobody says that a key is missing or wrong. -/
theorem heard_of_reachable (hreturns : Decrypts crypto backup)
    (hreachable : Reachable (step crypto backup collector) allowed (start file) threads) :
    Heard (Closed threads) threads := by
  refine @Reachable.invariant _ _ _ _ _ (fun threads => Heard (Closed threads) threads) ?_ ?_ _
    hreachable
  · exact heard_start file
  · intro threads action later hheard _ hstep
    cases action with
    | main => exact (hheard.mainStep hstep).mono fun hclosed => hclosed.mainStep hstep
    | decrypt =>
        exact (hheard.decryptStep hreturns (fun _ _ hclosed => hclosed) hstep).mono
          fun hclosed => hclosed.decryptStep hstep
    | fetch | listed _ | answered _ =>
        exact (hheard.fetchStep hstep).mono fun hclosed => hclosed.fetchStep hstep

/-- The key is in the channel, or has been taken from it and was not found wrong. -/
theorem heard_pending_of_reachable (hreturns : Decrypts crypto backup)
    (hreachable : Reachable (step crypto backup collector) allowed (start file) threads)
    (hkey : key ∈ threads.keys) {document : Bytes}
    (hopens : decryptDocument crypto (backup.setKeys [key]) = .ok document)
    (hlater : Reachable (step crypto backup collector) allowed threads later) :
    Heard False later ∧ Pending key later := by
  have hfirst : Heard False threads ∧ Pending key threads := by
    refine ⟨(heard_of_reachable hreturns hreachable).mono fun hclosed => ?_, fun _ => .inl hkey⟩
    rw [hclosed.1] at hkey
    cases hkey
  refine @Reachable.invariant _ _ _ _ _ (fun threads => Heard False threads ∧ Pending key threads)
    hfirst ?_ _ hlater
  rintro threads action later ⟨hheard, hpending⟩ - hstep
  cases action with
  | main => exact ⟨hheard.mainStep hstep, hpending.keeps (mainStep_keeps hstep)⟩
  | decrypt =>
      refine ⟨hheard.decryptStep hreturns (fun sawKey hat hclosed => ?_) hstep,
        hpending.decryptStep hreturns hopens hstep⟩
      rcases hpending (by rw [hat]; rfl) with hkey | ⟨_, hother⟩ | hother | ⟨_, hother | hother⟩
      · rw [hclosed.1] at hkey
        cases hkey
      all_goals
        rw [hat] at hother
        cases hother
  | fetch | listed _ | answered _ =>
      exact ⟨hheard.fetchStep hstep, hpending.keeps (fetchStep_keeps hstep)⟩

/-- A key that opens the backup is never answered with the error for a wrong key or for no
key, in any interleaving: once it is in the channel, the main thread returns the document, or
another error that has a cause of its own. -/
theorem not_missed_of_returned [Base64] (hbase64 : EncryptedMetadata.Base64Shrinks)
    (htemplates : TemplatesFit) (hcrypto : OpensInMemory crypto) {bytes : Bytes}
    (hfits : bytes.length ≤ isizeMax)
    (hload : EncryptedBackup.new.setEncryptedPayload bytes = .ok backup)
    (hreachable : Reachable (step crypto backup collector) allowed (start file) threads)
    (hkey : key ∈ threads.keys) {document : Bytes}
    (hopens : decryptDocument crypto (backup.setKeys [key]) = .ok document)
    (hlater : Reachable (step crypto backup collector) allowed threads later)
    {result : Exec CliError Bytes} (hreturned : later.main = .returned result) :
    result ≠ .fail .noKeys ∧ result ≠ .fail (.failedToDecrypt .wrongKey) := by
  have hreturns := decrypts_of_setEncryptedPayload hbase64 htemplates hcrypto hfits hload
  have hheard := (heard_pending_of_reachable hreturns hreachable hkey hopens hlater).1
  exact ⟨fun hmissed => hheard.result result hreturned (.inl hmissed),
    fun hmissed => hheard.result result hreturned (.inr hmissed)⟩

end Runs

/-! ## The letters of a Ledger -/

namespace Sample

open Bip138.Sample EncryptedMetadata.Sample

/-- The sample backup is loaded, and the holder decrypts it. -/
theorem load_sampleBackup :
    ∃ backup, EncryptedBackup.new.setEncryptedPayload sampleBackup.1 = .ok backup ∧
      decryptDocument sampleCrypto (backup.setKeys [holder]) = .ok (asBytes "hi") := by
  obtain ⟨backup, hload, hdocument⟩ := Exec.exists_eq_ok
    (EncryptedBackup.new.setEncryptedPayload sampleBackup.1) (fun backup =>
      decide (decryptDocument sampleCrypto (backup.setKeys [holder]) = .ok (asBytes "hi")))
    (by decide +kernel)
  exact ⟨backup, hload, of_decide_eq_true hdocument⟩

end Sample

open Cli.Sample Bip138.Sample EncryptedMetadata.Sample in
/-- The key of a Ledger opens the backup: whatever follows, it is not called wrong. -/
theorem not_missed_of_returned_ledger :
    ∃ backup, EncryptedBackup.new.setEncryptedPayload sampleBackup.1 = .ok backup ∧
      ∀ later,
        Reachable (step sampleCrypto backup onePath) (Granted holderLedger) keyGranted later →
        ∀ result, later.main = .returned result →
          result ≠ .fail .noKeys ∧ result ≠ .fail (.failedToDecrypt .wrongKey) := by
  obtain ⟨backup, hload, hdocument⟩ := load_sampleBackup
  refine ⟨backup, hload, fun later hlater result hreturned => ?_⟩
  exact not_missed_of_returned base64Shrinks templatesFit_miniscript opensInMemory_sampleCrypto
    sampleBackup.2 hload (reachable_keyGranted backup) (List.mem_singleton_self holder) hdocument
    hlater hreturned

end Bip138.Cli
