/-
# Which calls come back to C

The binding promises to return a code whatever its callbacks do. Encryption asserts that no
share of a key is zero, and then draws decoys until it has enough of them: a hash that
always answers the same makes the shares zero, and a source that leaves its buffer alone
never yields a decoy. On the way, and in decryption, a caller can ask for vectors that no
address space holds.

`entryPoints_return_iff` is the exact condition.
-/

import Bip138.Ffi.Binding
import Bip138.Ffi.Reading
import Bip138.Ffi.Writing

namespace Bip138.Ffi

open Bip138.Rust Bip138.Ll

variable {σ : Type}

section Shares

variable {vtable : CryptoVtable σ}

/-- The shares of some keys before the assertion on them, as the callbacks answer. -/
def shares (vtable : CryptoVtable σ) (secret : Block 32) :
    List (Block 32) → σ → List (Block 32) × σ
  | [], ctx => ([], ctx)
  | key :: keys, ctx =>
    let (si, ctx) := taggedHash vtable individualSecretTag key.1 ctx
    let (rest, ctx) := shares vtable secret keys ctx
    (Block.xor secret si :: rest, ctx)

theorem length_shares (secret : Block 32) (keys : List (Block 32)) (ctx : σ) :
    (shares vtable secret keys ctx).1.length = keys.length := by
  induction keys generalizing ctx with
  | nil => rfl
  | cons key keys ih =>
      dsimp only [shares]
      rw [List.length_cons, List.length_cons, ih]

theorem mem_shares_cons {secret key block : Block 32} {keys : List (Block 32)} {ctx : σ} :
    block ∈ (shares vtable secret (key :: keys) ctx).1 ↔
      block = Block.xor secret (taggedHash vtable individualSecretTag key.1 ctx).1 ∨
        block ∈ (shares vtable secret keys
          (taggedHash vtable individualSecretTag key.1 ctx).2).1 := List.mem_cons

/-- The individual secrets are the shares when none of them is zero. -/
theorem individualSecrets_eq_ok {secret : Block 32} {keys : List (Block 32)} {ctx : σ}
    (hshares : Block.zero 32 ∉ (shares vtable secret keys ctx).1) :
    individualSecrets vtable secret keys ctx = .ok (shares vtable secret keys ctx) := by
  induction keys generalizing ctx with
  | nil => rfl
  | cons key keys ih =>
      rw [mem_shares_cons, not_or] at hshares
      dsimp only [individualSecrets, individualSecret]
      rw [if_neg (Ne.symm hshares.1), Exec.ok_bind, ih hshares.2]
      rfl

/-- The assertion fails when some share is zero. -/
theorem individualSecrets_eq_abort {secret : Block 32} {keys : List (Block 32)} {ctx : σ}
    (hzero : Block.zero 32 ∈ (shares vtable secret keys ctx).1) :
    individualSecrets vtable secret keys ctx = .abort .assertion := by
  induction keys generalizing ctx with
  | nil => exact absurd hzero List.not_mem_nil
  | cons key keys ih =>
      dsimp only [individualSecrets, individualSecret]
      by_cases hfirst : Block.xor secret (taggedHash vtable individualSecretTag key.1 ctx).1 =
          Block.zero 32
      · rw [if_pos hfirst]
        rfl
      · rcases mem_shares_cons.mp hzero with hequal | hrest
        · exact absurd hequal.symm hfirst
        · rw [if_neg hfirst, Exec.ok_bind, ih hrest]
          rfl

end Shares

section Padding

variable {vtable : CryptoVtable σ} {secrets : List (Block 32)} {ctx : σ}

/-- Padding under callbacks is padding from the source behind them. -/
theorem map_padIndividualSecrets (fuel : ℕ) (secrets : List (Block 32)) (ctx : σ) :
    (padIndividualSecrets vtable fuel secrets ctx).map Prod.fst =
      Ll.padIndividualSecrets vtable.rng fuel ctx secrets := by
  rw [padIndividualSecrets, Ll.padIndividualSecrets]
  rcases doublingBucket secrets.length with fault | target
  · rfl
  · rw [Exec.ok_bind, Exec.ok_bind]
    symm
    apply loop_map
    intro state
    obtain ⟨secrets, ctx⟩ := state
    rw [Ll.padIndividualSecretsStep, padIndividualSecretsStep]
    by_cases hmissing : secrets.length < target
    · rw [if_pos hmissing, if_pos hmissing]
      dsimp only
      by_cases hkeep : (vtable.rng.fillBytes 32 ctx).1 ≠ Block.zero 32 ∧
          (vtable.rng.fillBytes 32 ctx).1 ∉ secrets
      · rw [if_pos hkeep, if_pos hkeep]
        rfl
      · rw [if_neg hkeep, if_neg hkeep]
        rfl
    · rw [if_neg hmissing, if_neg hmissing]
      rfl

/-- The padding loop collects distinct non-zero blocks and hands the state on. -/
theorem padIndividualSecretsStep_eq_collectFromStep (target : ℕ) :
    padIndividualSecretsStep vtable target =
      collectFromStep (vtable.rng.fillBytes 32) (· ≠ Block.zero 32) target := by
  funext ⟨secrets, ctx⟩
  by_cases hmissing : secrets.length < target
  · rw [collectFromStep_next hmissing, padIndividualSecretsStep, if_pos hmissing]
    dsimp only
    by_cases hkeep : (vtable.rng.fillBytes 32 ctx).1 ≠ Block.zero 32 ∧
        (vtable.rng.fillBytes 32 ctx).1 ∉ secrets
    · rw [if_pos hkeep, if_pos hkeep]
    · rw [if_neg hkeep, if_neg hkeep]
  · rw [collectFromStep_done (not_lt.mp hmissing), padIndividualSecretsStep, if_neg hmissing]

/-- The draws fill the bucket of some secrets, and fewer would not. -/
abbrev FillsBucket (vtable : CryptoVtable σ) (secrets : List (Block 32)) (ctx : σ) (count : ℕ) :
    Prop :=
  FillsAt (vtable.rng.fillBytes 32) (· ≠ Block.zero 32) (secretBucket secrets.length) secrets ctx
    count

/-- Some secrets and the decoys the draws offer for them. -/
def withDecoys (vtable : CryptoVtable σ) (secrets : List (Block 32)) (ctx : σ) (count : ℕ) :
    Finset (Block 32) :=
  secrets.toFinset ∪
    offered (vtable.rng.fillBytes 32) (· ≠ Block.zero 32) secrets ctx count

/-- The padding and what follows it come back, for some fuel, when the source fills the
bucket and what follows comes back with the secrets and the state that leaves. -/
theorem exists_returns_padIndividualSecrets_bind_iff {α : Type} (vtable : CryptoVtable σ) (ctx : σ)
    (rest : List (Block 32) × σ → Exec Ll.Error α) (good : Finset (Block 32) → σ → Prop)
    (hnonempty : secrets ≠ []) (hlength : secrets.length ≤ u8Max)
    (hrest : ∀ padded later, padded ≠ [] ∧ padded.length ≤ u8Max →
      ((rest (padded, later)).Returns ↔ good padded.toFinset later)) :
    (∃ fuel, (padIndividualSecrets vtable fuel secrets ctx >>= rest).Returns) ↔
      ∃ count, FillsBucket vtable secrets ctx count ∧
        good (withDecoys vtable secrets ctx count)
          (sourceAfter (vtable.rng.fillBytes 32) ctx count) := by
  have hloop : ∀ fuel, padIndividualSecrets vtable fuel secrets ctx =
      loop (collectFromStep (vtable.rng.fillBytes 32) (· ≠ Block.zero 32)
        (secretBucket secrets.length)) fuel (secrets, ctx) := by
    intro fuel
    rw [padIndividualSecrets, doublingBucket_eq hlength, Exec.ok_bind,
      padIndividualSecretsStep_eq_collectFromStep]
  have hpadded : ∀ fuel padded later,
      padIndividualSecrets vtable fuel secrets ctx = .ok (padded, later) →
        padded ≠ [] ∧ padded.length ≤ u8Max := by
    intro fuel padded later hpad
    have hcore : Ll.padIndividualSecrets vtable.rng fuel ctx secrets = .ok padded := by
      rw [← map_padIndividualSecrets, hpad]
      rfl
    obtain ⟨hsubset, hbucket⟩ := padIndividualSecrets_eq_ok hcore
    refine ⟨fun hempty => hnonempty ?_, hbucket ▸ secretBucket_le _⟩
    rw [hempty] at hsubset
    exact List.subset_nil.mp hsubset
  constructor
  · rintro ⟨fuel, hreturns⟩
    rcases hpad : padIndividualSecrets vtable fuel secrets ctx with fault | ⟨padded, later⟩
    · rw [hpad] at hreturns
      rcases hreturns with ⟨value, hok⟩ | ⟨cause, hfail⟩
      · cases hok
      · cases hfail
        exact absurd ((hloop fuel).symm.trans hpad) (collectFrom_ne_fail fuel cause)
    · have hgood := (hrest padded later (hpadded fuel padded later hpad)).mp
        (by rwa [hpad] at hreturns)
      rw [hloop] at hpad
      obtain ⟨count, hfills, rfl, hoffered⟩ := exists_fillsAt_of_collectFrom hpad
      refine ⟨count, hfills, ?_⟩
      rwa [withDecoys, ← hoffered]
  · rintro ⟨count, hfills, hgood⟩
    obtain ⟨padded, hpad⟩ := hfills.exists_collectFrom (ε := Ll.Error)
    obtain ⟨other, hother, -, hoffered⟩ := exists_fillsAt_of_collectFrom hpad
    rw [hother.unique hfills, ← withDecoys] at hoffered
    rw [← hloop] at hpad
    refine ⟨count + 1, ?_⟩
    rw [hpad, Exec.ok_bind, hrest padded _ (hpadded _ padded _ hpad), hoffered]
    exact hgood

end Padding

section Encryption

variable [Target]

namespace Request

variable (request : Request σ) (size : ℕ) (ctx : σ)

omit [Target] in
/-- The item of a request. -/
def item : Content × Bytes := (request.content, request.data)

/-- The payload of a request that is padded to `size` bytes. -/
def payload : Bytes := resize (itemBytes request.item) size 0

omit [Target] in
/-- The nonce of a request, and the state after it is drawn. -/
def nonce : Block 12 × σ := drawNonce request.vtable.rng ctx

omit [Target] in
/-- The secret of a request, and the state after it is computed. -/
def secret : Block 32 × σ :=
  decryptionSecret request.vtable (sortedRecipients request.keys) (request.nonce ctx).2

omit [Target] in
/-- The shares of the keys of a request, and the state after they are computed. -/
def shares : List (Block 32) × σ :=
  Ffi.shares request.vtable (request.secret ctx).1 (sortedRecipients request.keys)
    (request.secret ctx).2

/-- The request gets as far as the shares of its keys: its item is padded to `size` bytes,
and its keys and paths can be counted. -/
structure ReachesShares : Prop where
  item : ItemValid request.item
  padded : request.padding.paddedSize (itemSize request.item) = .ok size
  keyCount : 1 ≤ (recipients request.keys).card ∧ (recipients request.keys).card ≤ 255
  pathCount : (storedPaths request.derivationPaths false).card ≤ 255

/-- The cipher and the writers, once the secrets are padded, need no more room than there is:
a buffer for the tag as well, and a vector for the backup. -/
def BackupFits (secrets : Finset (Block 32)) (later : σ) : Prop :=
  (∀ path ∈ storedPaths request.derivationPaths false, 1 ≤ path.length ∧ path.length ≤ 255) →
    (request.nonce ctx).1 ≠ .zero 12 →
      size + 16 ≤ isizeMax ∧
        ∀ cyphertext, request.vtable.sealed (request.secret ctx).1 (request.nonce ctx).1
            (request.payload size) later = some cyphertext →
          cyphertext ≠ [] →
            backupSize (storedPaths request.derivationPaths false) secrets.card cyphertext ≤
              isizeMax

/-- The callbacks leave no zero share for the keys of a request, the source yields after the
shares enough new non-zero blocks to fill the bucket, and then the backup fits. -/
structure Served : Prop where
  shares : Block.zero 32 ∉ (request.shares ctx).1
  blocks : ∃ count, FillsBucket request.vtable (request.shares ctx).1 (request.shares ctx).2 count ∧
    request.BackupFits size ctx
      (withDecoys request.vtable (request.shares ctx).1 (request.shares ctx).2 count)
      (sourceAfter (request.vtable.rng.fillBytes 32) (request.shares ctx).2 count)

end Request

variable {request : Request σ} {size : ℕ} {ctx : σ}

omit [Target] in
theorem Request.length_shares :
    (request.shares ctx).1.length = (recipients request.keys).card := by
  rw [Request.shares, Ffi.length_shares, length_sortedRecipients]

omit [Target] in
theorem Request.rawKeys_eq : (rawKeys request.keys).toList = (sortedRecipients request.keys) :=
  BTreeSet.toList_eq_sort fun _ => mem_rawKeys_iff_mem_recipients

/-- The payload is built when the request gets that far and the payload fits. -/
theorem Request.ReachesShares.buildV1Payload_eq (hreaches : request.ReachesShares size)
    (hfits : PayloadFits request.content request.data request.padding) :
    buildV1Payload request.content request.data request.padding = .ok (request.payload size) ∧
      request.payload size ≠ [] ∧ (request.payload size).length = size ∧ size ≤ isizeMax := by
  have hbuild : Ll.buildV1Payload [(request.content, request.data)] request.padding =
      .ok (request.payload size) :=
    buildV1Payload_eq_ok_of_itemValid hreaches.item hreaches.padded
  have hlength : (request.payload size).length = size := by
    have hle := le_of_paddedSize_eq_ok hreaches.padded
    rw [Request.payload, resize_eq_append (by rwa [length_itemBytes]), List.length_append,
      List.length_replicate, length_itemBytes, Nat.add_sub_of_le hle]
  refine ⟨?_, ne_nil_of_buildV1Payload hbuild, hlength, ?_⟩
  · rw [Ffi.buildV1Payload_eq fun _ => hfits, hbuild]
  · exact hlength ▸ length_le_of_payloadFits hfits hbuild

/-- A request that reaches the shares computes them, pads them and writes the backup. -/
theorem Request.encrypt_eq_bind (fuel : ℕ) (ctx : σ) {payload : Bytes}
    (hbuild : buildV1Payload request.content request.data request.padding = .ok payload)
    (hkeys : 1 ≤ (recipients request.keys).card ∧ (recipients request.keys).card ≤ 255)
    (hpaths : (storedPaths request.derivationPaths false).card ≤ 255) :
    request.encrypt fuel ctx =
      individualSecrets request.vtable (request.secret ctx).1 (sortedRecipients request.keys)
          (request.secret ctx).2 >>= fun secrets =>
        padIndividualSecrets request.vtable fuel secrets.1 secrets.2 >>= fun padded =>
          writeBackup request.vtable (request.secret ctx).1
            (storedDerivationPaths request.derivationPaths false).toList payload
            (request.nonce ctx).1 padded.1 padded.2 := by
  have hcount : ¬ (u8Max < (sortedRecipients request.keys).length ∨
      (sortedRecipients request.keys) = []) := by
    rw [not_or, not_lt, ← List.length_eq_zero_iff, length_sortedRecipients]
    exact ⟨hkeys.2, Nat.one_le_iff_ne_zero.mp hkeys.1⟩
  have hstored : ¬ u8Max <
      (storedDerivationPaths request.derivationPaths false).toList.length := by
    rw [not_lt, length_storedDerivationPaths]
    exact hpaths
  dsimp only [Request.encrypt, encryptChacha20Poly1305V1]
  rw [hbuild, Exec.ok_bind]
  dsimp only [encodeV1Backup]
  rw [Request.rawKeys_eq, if_neg hcount, if_neg hstored]
  rfl

/-- A request that reaches the shares comes back when the callbacks serve it. -/
theorem exists_returns_encrypt_iff (htable : request.vtable.aeadEncrypt.isSome = true)
    (hreaches : request.ReachesShares size)
    (hfits : PayloadFits request.content request.data request.padding) :
    (∃ fuel, (request.encrypt fuel ctx).Returns) ↔ request.Served size ctx := by
  obtain ⟨hbuild, hnonempty, hsize, hisize⟩ := hreaches.buildV1Payload_eq hfits
  simp only [request.encrypt_eq_bind _ ctx hbuild hreaches.keyCount hreaches.pathCount]
  by_cases hzero : Block.zero 32 ∈ (request.shares ctx).1
  · rw [individualSecrets_eq_abort hzero]
    exact iff_of_false (fun ⟨_, hreturns⟩ => Exec.not_returns_abort _ hreturns)
      fun hserved => hserved.shares hzero
  · have hsecrets : individualSecrets request.vtable (request.secret ctx).1
        (sortedRecipients request.keys) (request.secret ctx).2 = .ok (request.shares ctx) :=
      individualSecrets_eq_ok hzero
    have hcard : (request.shares ctx).1.length ≤ u8Max := by
      rw [Request.length_shares]
      exact hreaches.keyCount.2
    have hshares : (request.shares ctx).1 ≠ [] := by
      rw [← List.length_pos_iff, Request.length_shares]
      exact hreaches.keyCount.1
    simp only [hsecrets, Exec.ok_bind]
    have hblocks := exists_returns_padIndividualSecrets_bind_iff request.vtable
      (request.shares ctx).2
      (fun padded => writeBackup request.vtable (request.secret ctx).1
        (storedDerivationPaths request.derivationPaths false).toList (request.payload size)
        (request.nonce ctx).1 padded.1 padded.2) (request.BackupFits size ctx) hshares hcard
      fun padded later hpadded => by
        rw [returns_writeBackup_iff htable ⟨hnonempty, by rwa [hsize]⟩ hpadded, hsize]
        exact imp_congr_left (and_iff_right hreaches.pathCount)
    rw [hblocks]
    exact ⟨fun hblocks => ⟨hzero, hblocks⟩, fun hserved => hserved.blocks⟩

/-- A payload that is built takes the request to its shares, if keys and paths can be
counted. -/
theorem Request.exists_reachesShares {payload : Bytes}
    (hbuild : Ll.buildV1Payload [(request.content, request.data)] request.padding = .ok payload)
    (hkeys : 1 ≤ (recipients request.keys).card ∧ (recipients request.keys).card ≤ 255)
    (hpaths : (storedPaths request.derivationPaths false).card ≤ 255) :
    ∃ size, request.ReachesShares size := by
  obtain ⟨-, hvalid, size, hsize, -⟩ := buildV1Payload_eq_ok_iff.mp hbuild
  rw [List.flatMap_cons, List.flatMap_nil, List.append_nil, length_itemBytes] at hsize
  exact ⟨size, hvalid _ List.mem_cons_self, hsize, hkeys, hpaths⟩

/-- A request that is refused before the shares comes back. -/
theorem returns_encrypt_of_refused {fuel : ℕ} (hrefused : ∀ size, ¬ request.ReachesShares size)
    (hfits : ItemValid request.item →
      PayloadFits request.content request.data request.padding) :
    (request.encrypt fuel ctx).Returns := by
  dsimp only [Request.encrypt, encryptChacha20Poly1305V1]
  rw [Ffi.buildV1Payload_eq hfits]
  obtain ⟨payload, hbuild⟩ | ⟨cause, hfail⟩ : (Ll.buildV1Payload
    [(request.content, request.data)] request.padding).Returns := returns_buildV1Payload
  swap
  · rw [hfail]
    exact Exec.returns_fail cause
  rw [hbuild, Exec.ok_bind]
  dsimp only [encodeV1Backup]
  by_cases hcount : u8Max < (rawKeys request.keys).toList.length ∨
      (rawKeys request.keys).toList = []
  · rw [if_pos hcount]
    exact Exec.returns_fail _
  by_cases hlong : u8Max < (storedDerivationPaths request.derivationPaths false).toList.length
  · rw [if_neg hcount, if_pos hlong]
    exact Exec.returns_fail _
  rw [not_or, not_lt, length_rawKeys, ← ne_eq, ← List.length_pos_iff, length_rawKeys] at hcount
  rw [not_lt, length_storedDerivationPaths] at hlong
  obtain ⟨size, hreaches⟩ := Request.exists_reachesShares hbuild hcount.symm hlong
  exact absurd hreaches (hrefused size)

/-- A payload that does not fit takes the request into a panic. -/
theorem not_returns_encrypt {fuel : ℕ} (hvalid : ItemValid request.item)
    (hfits : ¬ PayloadFits request.content request.data request.padding) :
    ¬ (request.encrypt fuel ctx).Returns := by
  dsimp only [Request.encrypt, encryptChacha20Poly1305V1]
  rw [buildV1Payload_eq_abort hvalid hfits]
  exact Exec.not_returns_abort _

/-- A request comes back, for some number of draws, when its payload fits and the callbacks
serve it, if it gets to them. -/
theorem exists_returns_request_encrypt_iff (htable : request.vtable.aeadEncrypt.isSome = true) :
    (∃ fuel, (request.encrypt fuel ctx).Returns) ↔
      (ItemValid request.item → PayloadFits request.content request.data request.padding) ∧
        ∀ size, request.ReachesShares size → request.Served size ctx := by
  by_cases hfits : ItemValid request.item →
      PayloadFits request.content request.data request.padding
  swap
  · obtain ⟨hvalid, hfull⟩ := Classical.not_imp.mp hfits
    exact iff_of_false (fun ⟨_, hreturns⟩ => not_returns_encrypt hvalid hfull hreturns)
      fun hserved => hfits hserved.1
  rw [and_iff_right hfits]
  by_cases hrefused : ∀ size, ¬ request.ReachesShares size
  · exact iff_of_true ⟨0, returns_encrypt_of_refused hrefused hfits⟩
      fun size hreaches => absurd hreaches (hrefused size)
  push Not at hrefused
  obtain ⟨size, hreaches⟩ := hrefused
  rw [exists_returns_encrypt_iff htable hreaches (hfits hreaches.item)]
  refine ⟨fun hserved other hother => ?_, fun hserved => hserved size hreaches⟩
  obtain rfl : size = other := Except.ok.inj (hreaches.padded.symm.trans hother.padded)
  exact hserved

end Encryption

section Arguments

variable [Target] {args : EncryptArgs σ}

namespace EncryptArgs

/-- The call gets as far as its paths: the pointers and callbacks it needs are there. -/
def ReachesPaths (args : EncryptArgs σ) : Prop :=
  args.out = true ∧ args.keys.isSome = true ∧ args.payload.isSome = true ∧
    ∃ vtable, args.vtable = some vtable ∧ vtable.sha256.isSome = true ∧
      vtable.aeadEncrypt.isSome = true ∧ vtable.fillRandom.isSome = true

/-- A vector has room for the paths, if there are any behind their pointer. -/
def PathsFit (args : EncryptArgs σ) : Prop :=
  args.ReachesPaths → args.paths.isSome = true → args.nPaths * derivationPathSize ≤ isizeMax

/-- What a request is read from. -/
theorem request_eq_ok {request : Request σ} (hrequest : args.request = .ok request) :
    (args.vtable = some request.vtable ∧ request.vtable.aeadEncrypt.isSome = true) ∧
      (∃ tag, contentFromFfi args.contentType args.bip tag = .ok request.content) ∧
      ∃ payload, args.payload = some payload ∧ request.data = payload.bytes := by
  unfold EncryptArgs.request at hrequest
  split at hrequest
  · rename_i vtable keys payload hvtable _ _ hpayload
    split at hrequest
    · cases hrequest
    · rename_i htable
      simp only [not_or, Option.isNone_iff_eq_none, ← ne_eq, ← Option.isSome_iff_ne_none] at htable
      simp only [Exec.bind_eq_ok_iff, Except.ok.injEq] at hrequest
      obtain ⟨-, -, keyList, -, paths, -, content, hcontent, padding, -, rfl⟩ := hrequest
      exact ⟨⟨hvtable, htable.2.1⟩, ⟨_, hcontent⟩, payload, hpayload, rfl⟩
  · cases hrequest

omit [Target] in
/-- Each chunk of the keys is copied into a key. -/
theorem exists_keyList (bytes : Bytes) :
    ∃ keyList, ((chunksExact xonlyKeySize bytes).mapM (Block.copyFromSlice xonlyKeySize) :
      Exec FfiError (List (Block xonlyKeySize))) = .ok keyList := by
  have hcopy : ∀ chunk ∈ chunksExact xonlyKeySize bytes, ∃ key,
      (Block.copyFromSlice xonlyKeySize chunk : Exec FfiError _) = .ok key :=
    fun chunk hchunk => ⟨_, Block.copyFromSlice_eq_ok (length_of_mem_chunksExact hchunk)⟩
  obtain ⟨keyList, hkeyList⟩ | ⟨cause, hfail⟩ := Exec.returns_mapM fun chunk hchunk =>
    .inl (hcopy chunk hchunk)
  · exact ⟨keyList, hkeyList⟩
  · obtain ⟨chunk, hchunk, hfail⟩ := Exec.exists_mem_of_mapM_eq_fail hfail
    obtain ⟨key, hkey⟩ := hcopy chunk hchunk
    rw [hkey] at hfail
    cases hfail

omit [Target] in
theorem returns_readPath (list : U32List) : (readPath list).Returns := by
  unfold readPath
  apply Exec.returns_ite (Exec.returns_ok _)
  rcases list.ptr with _ | childs
  · exact Exec.returns_fail _
  · exact Exec.returns_ok _

/-- The paths are read unless there is no room for them. -/
theorem returns_readPaths_iff (nPaths : ℕ) (paths : Option (PathArray nPaths)) :
    (readPaths nPaths paths).Returns ↔
      (paths.isSome = true → nPaths * derivationPathSize ≤ isizeMax) := by
  unfold readPaths
  split
  · rename_i hzero
    refine iff_of_true (Exec.returns_ok _) fun _ => ?_
    rw [hzero, Nat.zero_mul]
    exact Nat.zero_le _
  · rcases paths with _ | array
    · exact iff_of_true (Exec.returns_fail _) fun hsome => by cases hsome
    · refine Iff.trans ?_ (forall_prop_of_true rfl).symm
      by_cases hroom : nPaths * derivationPathSize ≤ isizeMax
      · refine iff_of_true ?_ hroom
        dsimp only
        rw [withCapacity_eq_ok hroom, Exec.ok_bind]
        exact Exec.returns_mapM fun list _ => returns_readPath list
      · refine iff_of_false ?_ hroom
        dsimp only
        rw [withCapacity_eq_abort (not_le.mp hroom)]
        exact Exec.not_returns_abort _

/-- The arguments behind the pointers are read unless there is no room for the paths. -/
theorem returns_request_iff (args : EncryptArgs σ) : args.request.Returns ↔ args.PathsFit := by
  have husize := two_mul_isizeMax_lt_usizeMax
  rw [EncryptArgs.request]
  split
  · rename_i vtable keys payload hvtable hout hkeys hpayload
    split
    · rename_i htable
      refine iff_of_true (Exec.returns_fail _) fun hreaches => ?_
      obtain ⟨-, -, -, other, hother, hsha256, hencrypt, hrandom⟩ := hreaches
      obtain rfl : vtable = other := Option.some.inj (hvtable.symm.trans hother)
      simp only [Option.isNone_iff_eq_none, Option.isSome_iff_ne_none] at *
      tauto
    · rename_i htable
      have hreaches : args.ReachesPaths := by
        simp only [not_or, Option.isNone_iff_eq_none, ← ne_eq,
          ← Option.isSome_iff_ne_none] at htable
        exact ⟨hout, by rw [hkeys]; rfl, by rw [hpayload]; rfl, vtable, hvtable, htable⟩
      have hfits := keys.fits
      obtain ⟨keyList, hkeyList⟩ := exists_keyList
        (keys.bytes.take (args.nKeys * xonlyKeySize))
      rw [mul_eq_ok (by omega), Exec.ok_bind, hkeyList, Exec.ok_bind, PathsFit,
        forall_prop_of_true hreaches, ← returns_readPaths_iff]
      apply Exec.returns_bind_iff
      intro paths
      exact (returns_contentFromFfi _ _ _).bind fun _ _ =>
        (returns_paddingFromFfi _).bind fun _ _ => Exec.returns_ok _
  · rename_i hmissing
    refine iff_of_true (Exec.returns_fail _) fun hreaches => ?_
    obtain ⟨hout, hkeys, hpayload, vtable, hvtable, -⟩ := hreaches
    obtain ⟨keys, hkeys⟩ := Option.isSome_iff_exists.mp hkeys
    obtain ⟨payload, hpayload⟩ := Option.isSome_iff_exists.mp hpayload
    exact absurd hpayload (hmissing vtable keys payload hvtable hout hkeys)

end EncryptArgs

/-- Encryption comes back to C, for some number of draws, exactly when there is room for the
paths, and the payload fits and the callbacks serve the request, as far as it gets. -/
theorem exists_bip138Encrypt_eq_ok_iff {ctx : σ} :
    (∃ fuel returned, bip138Encrypt fuel args ctx = .ok returned) ↔
      args.PathsFit ∧ ∀ request, args.request = .ok request →
        (ItemValid request.item → PayloadFits request.content request.data request.padding) ∧
          ∀ size, request.ReachesShares size → request.Served size ctx := by
  simp only [bip138Encrypt, exists_comeBack_eq_ok_iff]
  rw [← args.returns_request_iff]
  rcases hrequest : args.request with fault | request
  · refine ⟨fun ⟨fuel, hreturns⟩ => ?_, fun ⟨hreturns, _⟩ => ⟨0, ?_⟩⟩
    · exact ⟨Exec.returns_of_returns_bind hreturns, fun request hok => by cases hok⟩
    · exact hreturns.bind fun request hok => by cases hok
  · simp only [Exec.ok_bind, Exec.returns_mapErr_iff, Except.ok.injEq, forall_eq']
    rw [exists_returns_request_encrypt_iff (EncryptArgs.request_eq_ok hrequest).1.2,
      and_iff_right (Exec.returns_ok request)]

end Arguments

section Decryption

variable [Target] {slotSize : ℕ}

omit [Target] in
theorem length_le_of_opened {vtable : CryptoVtable σ} {key : Block 32} {cyphertext out : Bytes}
    {nonce : Block 12} {secrets : List (Block 32)} {ctx : σ}
    (hopened : opened vtable key secrets cyphertext nonce ctx = some out) :
    out.length ≤ cyphertext.length := by
  dsimp only [opened] at hopened
  generalize (taggedHash vtable individualSecretTag key.1 ctx).2 = later at hopened
  induction secrets generalizing later with
  | nil => cases hopened
  | cons ci secrets ih =>
      rw [tryIndividualSecrets] at hopened
      split at hopened
      · rename_i found later hfirst
        cases hopened
        exact vtable.length_le_of_decrypt (congrArg Prod.fst hfirst)
      · exact ih _ hopened

/-- A decryption comes back when the items of what it opens fit in a vector. -/
theorem returns_decryptChacha20Poly1305V1_iff {vtable : CryptoVtable σ} {key : Block 32}
    {cyphertext : Bytes} {nonce : Block 12} {secrets : List (Block 32)} {ctx : σ}
    (hcyphertext : cyphertext.length ≤ isizeMax) :
    (decryptChacha20Poly1305V1 vtable (decodePlaintextInto slotSize) key secrets cyphertext nonce
        ctx).Returns ↔
      ∀ out, opened vtable key secrets cyphertext nonce ctx = some out → ItemsFit slotSize out := by
  rw [decryptChacha20Poly1305V1]
  rcases hopened : opened vtable key secrets cyphertext nonce ctx with _ | out
  · exact iff_of_true (Exec.returns_fail _) fun out hsome => by cases hsome
  · have hout : out.length ≤ isizeMax := (length_le_of_opened hopened).trans hcyphertext
    dsimp only
    rw [returns_decodePlaintextInto_iff hout]
    simp only [Option.some.injEq, forall_eq']

/-- A call of `bip138_decrypt` gets to decode a payload: its arguments are there, its
container decodes, and the callbacks open it. -/
def DecryptArgs.Opens (args : DecryptArgs σ) (ctx : σ) (out : Bytes) : Prop :=
  ∃ vtable key encrypted stored secrets encryption nonce cyphertext,
    (args.vtable = some vtable ∧ vtable.sha256.isSome = true ∧ vtable.aeadDecrypt.isSome = true) ∧
      args.out = true ∧ args.key = some key ∧ args.encrypted = some encrypted ∧
      decodeV1 encrypted.bytes = .ok (stored, secrets, encryption, nonce, cyphertext) ∧
      opened vtable ⟨key.bytes, key.length_eq⟩ secrets cyphertext nonce ctx = some out

/-- Decryption comes back to C when the payload it gets to decode has no more items than
fit in a vector. -/
theorem exists_bip138DecryptWith_eq_ok_iff {args : DecryptArgs σ} {ctx : σ} :
    (∃ returned, bip138DecryptWith (decodePlaintextInto slotSize) args ctx = .ok returned) ↔
      ∀ out, args.Opens ctx out → ItemsFit slotSize out := by
  rw [bip138DecryptWith, exists_comeBack_eq_ok_iff, DecryptArgs.decrypt]
  split
  swap
  · rename_i hmissing
    refine iff_of_true (Exec.returns_fail _) fun out hopens => ?_
    obtain ⟨vtable, key, encrypted, -, -, -, -, -, hvtable, hout, hkey, hencrypted, -⟩ := hopens
    exact absurd hencrypted (hmissing vtable key encrypted hvtable.1 hout hkey)
  rename_i vtable key encrypted hvtable hout hkey hencrypted
  split
  · rename_i htable
    refine iff_of_true (Exec.returns_fail _) fun out hopens => ?_
    obtain ⟨other, -, -, -, -, -, -, -, ⟨hother, hcomplete⟩, -⟩ := hopens
    obtain rfl : vtable = other := Option.some.inj (hvtable.symm.trans hother)
    simp only [Option.isNone_iff_eq_none, Option.isSome_iff_ne_none] at htable hcomplete
    exact absurd htable (not_or.mpr hcomplete)
  rename_i htable
  have hbytes : encrypted.bytes.length ≤ isizeMax := by
    rw [encrypted.length_eq]
    exact encrypted.fits
  have hopens : ∀ out, args.Opens ctx out ↔ ∃ stored secrets encryption nonce cyphertext,
      decodeV1 encrypted.bytes = .ok (stored, secrets, encryption, nonce, cyphertext) ∧
        opened vtable ⟨key.bytes, key.length_eq⟩ secrets cyphertext nonce ctx = some out := by
    intro out
    simp only [not_or, Option.isNone_iff_eq_none, ← ne_eq, ← Option.isSome_iff_ne_none] at htable
    constructor
    · rintro ⟨other, otherKey, otherEncrypted, stored, secrets, encryption, nonce, cyphertext,
        ⟨hother, -⟩, -, hotherKey, hotherEncrypted, hopened⟩
      cases hvtable.symm.trans hother
      cases hkey.symm.trans hotherKey
      cases hencrypted.symm.trans hotherEncrypted
      exact ⟨stored, secrets, encryption, nonce, cyphertext, hopened⟩
    · rintro ⟨stored, secrets, encryption, nonce, cyphertext, hopened⟩
      exact ⟨vtable, key, encrypted, stored, secrets, encryption, nonce, cyphertext,
        ⟨hvtable, htable⟩, hout, hkey, hencrypted, hopened⟩
  simp only [hopens]
  obtain ⟨⟨stored, secrets, encryption, nonce, cyphertext⟩, hdecode⟩ | ⟨cause, hfail⟩ :=
    returns_decodeV1 hbytes
  swap
  · rw [hfail]
    refine iff_of_true (Exec.returns_fail _) fun out hopened => ?_
    obtain ⟨stored, secrets, encryption, nonce, cyphertext, hdecode, -⟩ := hopened
    cases hdecode
  have hmapped : Exec.mapErr FfiError.ll (decodeV1 encrypted.bytes) =
      .ok (stored, secrets, encryption, nonce, cyphertext) := Exec.mapErr_eq_ok_iff.mpr hdecode
  have hcyphertext := length_le_of_decodeV1 hbytes hdecode
  rw [hmapped, hdecode, Exec.ok_bind]
  dsimp only
  rw [Block.copyFromSlice_eq_ok key.length_eq, Exec.ok_bind, Exec.returns_mapErr_iff,
    returns_decryptChacha20Poly1305V1_iff (hcyphertext.trans hbytes)]
  refine forall_congr' fun out => imp_congr_left ⟨fun hopened => ?_, fun hopened => ?_⟩
  · exact ⟨stored, secrets, encryption, nonce, cyphertext, rfl, hopened⟩
  · obtain ⟨_, _, _, _, _, hsame, hopened⟩ := hopened
    cases hsame
    exact hopened

end Decryption

section Promise

variable [Target]

/-- A call of `bip138_encrypt` comes back with a return code. -/
def EncryptReturns (args : EncryptArgs σ) (ctx : σ) : Prop :=
  ∃ fuel returned, bip138Encrypt fuel args ctx = .ok returned ∧ IsReturnCode returned.code

/-- A call of `bip138_decrypt` comes back with a return code, when an item takes `slotSize`
bytes in the vector it is pushed on. -/
def DecryptReturns (slotSize : ℕ) (args : DecryptArgs σ) (ctx : σ) : Prop :=
  ∃ returned, bip138DecryptWith (decodePlaintextInto slotSize) args ctx = .ok returned ∧
    IsReturnCode returned.code

/-- An encryption comes back with a return code exactly when there is room for its paths and
for its payload, and then, if its request gets to the shares of its keys, the callbacks serve
it. A decryption does exactly when there is room for the items of the payload it opens. -/
theorem entryPoints_return_iff :
    (∀ (args : EncryptArgs σ) (ctx : σ), EncryptReturns args ctx ↔
        args.PathsFit ∧ ∀ request, args.request = .ok request →
          (ItemValid request.item →
              PayloadFits request.content request.data request.padding) ∧
            ∀ size, request.ReachesShares size → request.Served size ctx) ∧
      ∀ (slotSize : ℕ) (args : DecryptArgs σ) (ctx : σ), DecryptReturns slotSize args ctx ↔
        ∀ out, args.Opens ctx out → ItemsFit slotSize out := by
  refine ⟨fun args ctx => ?_, fun slotSize args ctx => ?_⟩
  · rw [← exists_bip138Encrypt_eq_ok_iff]
    refine exists₂_congr fun fuel returned => and_iff_left_of_imp fun hback => ?_
    exact isReturnCode_of_comeBack hback
  · rw [← exists_bip138DecryptWith_eq_ok_iff]
    refine exists_congr fun returned => and_iff_left_of_imp fun hback => ?_
    exact isReturnCode_of_comeBack hback

end Promise

namespace Sample

open Bip138.Sample

/-- A call of `bip138_encrypt` that makes the sample backup under a table. -/
def encryptCall (vtable : CryptoVtable ℕ) : EncryptArgs ℕ where
  vtable := some vtable
  nKeys := 1
  keys := some ⟨sampleKey.1, sampleKey.2, xonlyKeySize_le_isizeMax⟩
  nPaths := 0
  paths := none
  contentType := bip138ContentBip380
  bip := 0
  tagLen := 0
  tag := none
  payloadLen := 3
  payload := some ⟨[0x61, 0x62, 0x63], rfl, by decide +kernel⟩
  padding := bip138PaddingNone
  out := true
  err := true
  counts := by decide +kernel

/-- A table whose hash answers every input with the same block. -/
def constantHash : CryptoVtable ℕ :=
  { vtable with sha256 := some fun _ ctx => (Block.zero 32, ctx) }

end Sample

open Bip138.Sample Sample in
/-- The sample calls come back, so the callbacks serve the one and the items fit in the
other. -/
theorem entryPoints_return_iff_sample :
    (EncryptReturns (encryptCall vtable) 1 ∧ (encryptCall vtable).PathsFit ∧
        ∀ request, (encryptCall vtable).request = .ok request →
          (ItemValid request.item →
              PayloadFits request.content request.data request.padding) ∧
            ∀ size, request.ReachesShares size → request.Served size 1) ∧
      DecryptReturns 24 (decryptCall vtable sampleKey sampleBackup true) 1 ∧
        ∀ out, (decryptCall vtable sampleKey sampleBackup true).Opens 1 out → ItemsFit 24 out := by
  have hencrypts : EncryptReturns (encryptCall vtable) 1 := by
    obtain ⟨returned, hback, -⟩ := Exec.exists_eq_ok (bip138Encrypt 5 (encryptCall vtable) 1)
      (fun _ => true) (by decide +kernel)
    exact ⟨5, returned, hback, isReturnCode_of_comeBack hback⟩
  have hdecrypts : DecryptReturns 24 (decryptCall vtable sampleKey sampleBackup true) 1 := by
    obtain ⟨returned, hback, -⟩ := Exec.exists_eq_ok
      (bip138DecryptWith (decodePlaintextInto 24)
        (decryptCall vtable sampleKey sampleBackup true) 1)
      (fun _ => true) (by decide +kernel)
    exact ⟨returned, hback, isReturnCode_of_comeBack hback⟩
  exact ⟨⟨hencrypts, (entryPoints_return_iff.1 _ _).mp hencrypts⟩,
    hdecrypts, (entryPoints_return_iff.2 24 _ _).mp hdecrypts⟩

open Bip138.Sample Sample in
/-- A hash that always answers the same takes encryption into its assertion. -/
theorem not_encryptReturns_constantHash :
    (∀ fuel, bip138Encrypt fuel (encryptCall constantHash) 1 = .error (.panic .assertion)) ∧
      ¬ EncryptReturns (encryptCall constantHash) 1 := by
  have hpanic : ∀ fuel,
      bip138Encrypt fuel (encryptCall constantHash) 1 = .error (.panic .assertion) := by
    intro fuel
    rfl
  refine ⟨hpanic, fun hreturns => ?_⟩
  obtain ⟨fuel, returned, hback, -⟩ := hreturns
  rw [hpanic fuel] at hback
  cases hback

end Bip138.Ffi
