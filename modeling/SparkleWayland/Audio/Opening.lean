import SparkleWayland.Lib.Holdings
import SparkleWayland.Lib.Machine

/-!
# Opening a PCM and closing it (`pcm_sparkle/pcm_sparkle.c`, `were/were1_tmpfile.c`)

To open a PCM the plugin takes a block for its own structure, a file that is mapped for the ring,
and a socket; each of the steps can fail, and what has been taken by then goes back. That a field
holds no descriptor the code tells by `fd > 0`, for `calloc` has cleared it: `books_kept` says that
nothing is given back twice, and that what is not given back is descriptor 0 at most.
-/

namespace SparkleWayland

/-- What the system hands out to a process. -/
inductive Handed where
  | descriptor (fd : Int)
  | mapping (address : Nat)
  | block (address : Nat)
  deriving DecidableEq, Repr

/-- How a process ends: by `abort`, or as it writes to where a null pointer points. -/
inductive Death where
  | aborted
  | nullWritten
  deriving DecidableEq, Repr

/-! ## The configuration -/

/-- An entry of a configuration, as `snd_config_get_id` and `snd_config_get_string` read it. -/
structure ConfigNode where
  id : Option String
  string : Option (List UInt8)

/-- `sparkle_path` -/
def sparklePath : List UInt8 := "/data/data/com.sion.sparkle/files/audio-0".toList.map fun c =>
  UInt8.ofNat c.toNat

/-- The loop over the configuration. The result is the path, if no entry stops it. -/
def readConf (path : List UInt8) : List ConfigNode → Option (List UInt8)
  | [] => some path
  | n :: conf =>
    match n.id with
    | none => readConf path conf
    | some id =>
      if id = "comment" ∨ id = "type" ∨ id = "hint" then readConf path conf
      else if id = "path" then n.string.bind fun path => readConf path conf
      else none

/-! ## The constraints -/

/-- `SND_PCM_IOPLUG_HW_*` -/
inductive HwParam where
  | access
  | format
  | channels
  | rate
  | periodBytes
  | periods
  | bufferBytes
  deriving DecidableEq, Repr

/-- What `snd_pcm_ioplug_set_param_list` and `snd_pcm_ioplug_set_param_minmax` are told. -/
inductive HwConstraint where
  | list (param : HwParam) (values : List Nat)
  | minmax (param : HwParam) (min max : Nat)
  deriving DecidableEq, Repr

/-- `SND_PCM_ACCESS_RW_INTERLEAVED` -/
def accessRwInterleaved : Nat := 3

/-- `SND_PCM_FORMAT_S16_LE` -/
def formatS16Le : Nat := 2

/-- The constraints, in order. -/
def hwConstraints : List HwConstraint := [
  .list .access [accessRwInterleaved],
  .list .format [formatS16Le],
  .minmax .channels 2 2,
  .minmax .rate 48000 48000,
  .minmax .periodBytes (65536 / 8) (65536 / 8),
  .minmax .periods 8 8,
  .minmax .bufferBytes (65536 / 8 * 8) (65536 / 8 * 8)]

/-- `sparkle_hw_constraint`, where `setParam` is what the calls return: the first error, or 0. -/
def sparkleHwConstraint (setParam : HwConstraint → Int) : Int :=
  ((hwConstraints.map setParam).find? (· < 0)).getD 0

/-! ## Opening -/

/-- What the system answers while a PCM is opened: blocks and mappings have addresses, descriptors
numbers, and there is none where a call fails. -/
structure System where
  calloc : Option Nat
  /-- the block for the name of the file -/
  name : Option Nat
  mkstemp : Option Nat
  ftruncate : Bool
  mmap : Option Nat
  socket : Option Nat
  /-- whether there is a server at a path -/
  connect : List UInt8 → Bool
  /-- whether `were1_unix_socket_send_all` sends all -/
  sendAll : Bool
  /-- the block for the control message -/
  control : Option Nat
  sendmsg : Int
  ioplugCreate : Int
  setParam : HwConstraint → Int

inductive PcmStream where
  | playback
  | capture
  deriving DecidableEq, Repr

/-- What is set of `snd_pcm_ioplug_t`. The callbacks are those of the stream. -/
structure PcmIoplug where
  pollFd : Int
  callback : Option PcmStream
  deriving DecidableEq, Repr

/-- `snd_pcm_sparkle_t`, and where it is -/
structure PcmSparkle where
  address : Nat
  io : PcmIoplug
  fd : Int
  bufferFd : Int
  buffer : Option Nat
  deriving DecidableEq, Repr

open Holding

/-- `were1_tmpfile_create` -/
def tmpfileCreate (system : System) : Holding Handed Death Int :=
  match system.name with
  | none => pure (-1)
  | some name => do
    acquire (.block name)
    match system.mkstemp with
    | none => do
      release (.block name)
      pure (-1)
    | some fd => do
      acquire (.descriptor fd)
      release (.block name)
      if system.ftruncate then pure fd
      else do
        release (.descriptor fd)
        pure (-1)

/-- `were1_tmpfile_map`. There is no address where it returns -1. -/
def tmpfileMap (system : System) (fd : Int) : Holding Handed Death (Option Nat) := do
  touch (.descriptor fd)
  match system.mmap with
  | none => pure none
  | some address => do
    acquire (.mapping address)
    pure (some address)

/-- The name in a `sockaddr_un`: `strncpy` leaves off what is too long for it. -/
def sunPath (path : List UInt8) : List UInt8 := path.take 107

/-- `were1_unix_socket_connect` -/
def unixSocketConnect (system : System) (path : List UInt8) : Holding Handed Death Int :=
  match system.socket with
  | none => pure (-1)
  | some fd => do
    acquire (.descriptor fd)
    if system.connect (sunPath path) then pure fd
    else do
      release (.descriptor fd)
      pure (-1)

/-- `were1_unix_socket_send_fds`, for one descriptor. The block for the control message is used
without a look at it. -/
def unixSocketSendFds (system : System) (fd sent : Int) : Holding Handed Death Int :=
  match system.control with
  | none => finish .nullWritten
  | some control => do
    acquire (.block control)
    touch (.descriptor fd)
    touch (.descriptor sent)
    release (.block control)
    pure (if system.sendmsg = 1 then 0 else -1)

/-- `critical` -/
def critical (ret : Int) : Holding Handed Death PUnit :=
  if ret = -1 then finish .aborted else pure ⟨⟩

/-- The last part of `sparkle_initialize`: the codes and the file are sent. -/
def sendBuffer (system : System) (sparkle : PcmSparkle) : Holding Handed Death PUnit := do
  touch (.descriptor sparkle.fd)
  critical (if system.sendAll then 0 else -1)
  let ret ← unixSocketSendFds system sparkle.fd sparkle.bufferFd
  critical ret

/-- The part of `sparkle_initialize` that connects. -/
def connectBuffer (system : System) (path : List UInt8) (sparkle : PcmSparkle) :
    Holding Handed Death (Int × PcmSparkle) := do
  let fd ← unixSocketConnect system path
  if fd = -1 then pure (-1, { sparkle with fd := fd })
  else do
    sendBuffer system { sparkle with fd := fd }
    pure (0, { sparkle with fd := fd })

/-- `sparkle_initialize`: what it returns, and the structure then. -/
def sparkleInitialize (system : System) (path : List UInt8) (sparkle : PcmSparkle) :
    Holding Handed Death (Int × PcmSparkle) := do
  let bufferFd ← tmpfileCreate system
  if bufferFd = -1 then pure (-1, { sparkle with bufferFd := bufferFd })
  else do
    let buffer ← tmpfileMap system bufferFd
    match buffer with
    | none => pure (-1, { sparkle with bufferFd := bufferFd })
    | some buffer => do
      -- `were1_ring_buffer_initialize`
      touch (.mapping buffer)
      connectBuffer system path { sparkle with bufferFd := bufferFd, buffer := some buffer }

/-- The parts of `sparkle_finish` -/
def finishSocket (sparkle : PcmSparkle) : Holding Handed Death PcmSparkle :=
  if 0 < sparkle.fd then do
    touch (.descriptor sparkle.fd)
    release (.descriptor sparkle.fd)
    pure { sparkle with fd := -1 }
  else pure sparkle

def finishMapping (sparkle : PcmSparkle) : Holding Handed Death PcmSparkle :=
  match sparkle.buffer with
  | some buffer => do
    release (.mapping buffer)
    pure { sparkle with buffer := none }
  | none => pure sparkle

def finishFile (sparkle : PcmSparkle) : Holding Handed Death PcmSparkle :=
  if 0 < sparkle.bufferFd then do
    release (.descriptor sparkle.bufferFd)
    pure { sparkle with bufferFd := -1 }
  else pure sparkle

/-- `sparkle_finish` -/
def sparkleFinish (sparkle : PcmSparkle) : Holding Handed Death PcmSparkle := do
  let sparkle ← finishSocket sparkle
  let sparkle ← finishMapping sparkle
  finishFile sparkle

/-- `sparkle_close`. What stands behind the label `error` does the same. -/
def sparkleClose (sparkle : PcmSparkle) : Holding Handed Death PUnit := do
  let sparkle ← sparkleFinish sparkle
  release (.block sparkle.address)

def EINVAL : Int := 22
def ENOENT : Int := 2
def ENOMEM : Int := 12

/-- The end of `SND_PCM_PLUGIN_DEFINE_FUNC(sparkle)`, once there is a structure that is initialized.
`snd_pcm_ioplug_delete` closes the PCM, and with it calls `sparkle_close`. -/
def createIoplug (system : System) (stream : PcmStream) (sparkle : PcmSparkle) :
    Holding Handed Death (Except Int PcmSparkle) :=
  if system.ioplugCreate < 0 then do
    sparkleClose sparkle
    pure (.error system.ioplugCreate)
  else if sparkleHwConstraint system.setParam < 0 then do
    sparkleClose sparkle
    pure (.error (sparkleHwConstraint system.setParam))
  else pure (.ok { sparkle with io := ⟨sparkle.fd, some stream⟩ })

/-- `SND_PCM_PLUGIN_DEFINE_FUNC(sparkle)`: an error, or the PCM. -/
def openSparkle (system : System) (conf : List ConfigNode) (stream : PcmStream) :
    Holding Handed Death (Except Int PcmSparkle) :=
  match readConf sparklePath conf with
  | none => pure (.error (-EINVAL))
  | some path =>
    match system.calloc with
    | none => pure (.error (-ENOMEM))
    | some address => do
      acquire (.block address)
      let out ← sparkleInitialize system path ⟨address, ⟨0, none⟩, 0, 0, none⟩
      if out.1 = -1 then do
        sparkleClose out.2
        pure (.error (-ENOENT))
      else createIoplug system stream out.2

/-- What `sparkle_start` and `sparkle_stop` need: the socket, on which a code is sent or not. -/
def sparkleCommand (sparkle : PcmSparkle) (sent : Bool) : Holding Handed Death PUnit := do
  touch (.descriptor sparkle.fd)
  critical (if sent then 0 else -1)

/-- What `sparkle_write` and `sparkle_pointer` need: the ring. -/
def sparkleTransfer (sparkle : PcmSparkle) : Holding Handed Death PUnit :=
  match sparkle.buffer with
  | some buffer => touch (.mapping buffer)
  | none => finish .nullWritten

/-! ## A process with PCMs -/

/-- A process: what it holds, what of that the rest of it has been handed, the PCMs that are open,
and why it has stopped. -/
structure PcmProcess where
  held : Finset Handed
  others : Finset Handed
  pcms : List PcmSparkle
  stopped : Option (Stop Death)

namespace PcmProcess

inductive Label where
  | openPcm (system : System) (conf : List ConfigNode) (stream : PcmStream)
  /-- `sparkle_start` or `sparkle_stop`, and whether its code is sent -/
  | command (sparkle : PcmSparkle) (sent : Bool)
  /-- `sparkle_write` or `sparkle_pointer` -/
  | transfer (sparkle : PcmSparkle)
  | closePcm (sparkle : PcmSparkle)
  /-- The rest of the process -/
  | handOut (r : Handed)
  | giveBack (r : Handed)

/-- A program of the plugin, and what becomes of the PCMs. What the system does not do is no
step. -/
def perform {α : Type} (s : PcmProcess) (p : Holding Handed Death α)
    (pcms : α → List PcmSparkle) : Option PcmProcess :=
  match p s.held with
  | .ok (a, held) => some { s with held := held, pcms := pcms a }
  | .error .excluded => none
  | .error stop => some { s with stopped := some stop }

/-- A PCM that has been opened joins the others. -/
def opened (pcms : List PcmSparkle) : Except Int PcmSparkle → List PcmSparkle
  | .ok sparkle => sparkle :: pcms
  | .error _ => pcms

def step (s : PcmProcess) (a : Label) : Option PcmProcess :=
  if s.stopped = none then
    match a with
    | .openPcm system conf stream => s.perform (openSparkle system conf stream) (opened s.pcms)
    | .command sparkle sent =>
      if sparkle ∈ s.pcms then s.perform (sparkleCommand sparkle sent) fun _ => s.pcms
      else none
    | .transfer sparkle =>
      if sparkle ∈ s.pcms then s.perform (sparkleTransfer sparkle) fun _ => s.pcms
      else none
    | .closePcm sparkle =>
      if sparkle ∈ s.pcms then s.perform (sparkleClose sparkle) fun _ => s.pcms.erase sparkle
      else none
    | .handOut r =>
      if r ∈ s.held then none
      else some { s with held := insert r s.held, others := insert r s.others }
    | .giveBack r =>
      if r ∈ s.others then some { s with held := s.held.erase r, others := s.others.erase r }
      else none
  else none

/-- A process that has opened no PCM. -/
def machine : Machine PcmProcess Label :=
  Machine.ofStep (fun s => s.held = s.others ∧ s.pcms = [] ∧ s.stopped = none) step

end PcmProcess

/-! ## What the functions do with their share -/

namespace PcmSparkle

/-- What a structure is responsible for, the block it is in apart. -/
def fields (sparkle : PcmSparkle) : Finset Handed :=
  (if 0 < sparkle.fd then {.descriptor sparkle.fd} else ∅) ∪
    (sparkle.buffer.elim ∅ fun buffer => {.mapping buffer}) ∪
      if 0 < sparkle.bufferFd then {.descriptor sparkle.bufferFd} else ∅

/-- All that an open PCM has. -/
def share (sparkle : PcmSparkle) : Finset Handed :=
  {.block sparkle.address, .descriptor sparkle.fd, .descriptor sparkle.bufferFd} ∪
    sparkle.buffer.elim ∅ fun buffer => {.mapping buffer}

/-- An initialized structure has two descriptors and a mapping. -/
structure Complete (sparkle : PcmSparkle) : Prop where
  fd : 0 ≤ sparkle.fd
  bufferFd : 0 ≤ sparkle.bufferFd
  ne : sparkle.fd ≠ sparkle.bufferFd
  buffer : sparkle.buffer ≠ none

/-- A share that is a structure's to give back: what it is responsible for, but that descriptor 0
may be in it too. -/
structure Owns (sparkle : PcmSparkle) (share : Finset Handed) : Prop where
  block : .block sparkle.address ∈ share
  fields : sparkle.fields ⊆ share
  separate : 0 < sparkle.fd → sparkle.fd ≠ sparkle.bufferFd
  only : ∀ r ∈ share, r = .block sparkle.address ∨ r ∈ sparkle.fields ∨ r = .descriptor 0

variable {sparkle : PcmSparkle} {pre : Finset Handed} {r : Handed}

theorem mem_fields : r ∈ sparkle.fields ↔
    (0 < sparkle.fd ∧ r = .descriptor sparkle.fd) ∨
      (∃ buffer, sparkle.buffer = some buffer ∧ r = .mapping buffer) ∨
        (0 < sparkle.bufferFd ∧ r = .descriptor sparkle.bufferFd) := by
  obtain ⟨address, io, fd, bufferFd, buffer⟩ := sparkle
  rw [fields, Finset.mem_union, Finset.mem_union, or_assoc]
  refine or_congr ?_ (or_congr ?_ ?_)
  · split_ifs with h <;> simp [h]
  · cases buffer <;> simp
  · split_ifs with h <;> simp [h]

theorem mem_share : r ∈ sparkle.share ↔
    r = .block sparkle.address ∨ r = .descriptor sparkle.fd ∨ r = .descriptor sparkle.bufferFd ∨
      ∃ buffer, sparkle.buffer = some buffer ∧ r = .mapping buffer := by
  obtain ⟨address, io, fd, bufferFd, buffer⟩ := sparkle
  rw [share, Finset.mem_union]
  cases buffer <;> simp [or_assoc]

theorem Complete.owns (h : sparkle.Complete) : sparkle.Owns sparkle.share where
  block := mem_share.mpr (Or.inl rfl)
  fields r hr := by
    rw [mem_share]
    rcases mem_fields.mp hr with ⟨-, hr⟩ | hr | ⟨-, hr⟩
    · exact Or.inr (Or.inl hr)
    · exact Or.inr (Or.inr (Or.inr hr))
    · exact Or.inr (Or.inr (Or.inl hr))
  separate _ := h.ne
  only r hr := by
    rw [mem_fields]
    rcases mem_share.mp hr with hr | rfl | rfl | hr
    · exact Or.inl hr
    · rcases h.fd.eq_or_lt with hzero | hpos
      · exact Or.inr (Or.inr (by rw [← hzero]))
      · exact Or.inr (Or.inl (Or.inl ⟨hpos, rfl⟩))
    · rcases h.bufferFd.eq_or_lt with hzero | hpos
      · exact Or.inr (Or.inr (by rw [← hzero]))
      · exact Or.inr (Or.inl (Or.inr (Or.inr ⟨hpos, rfl⟩)))
    · exact Or.inr (Or.inl (Or.inr (Or.inl hr)))

/-- A structure that has no socket yet. -/
theorem owns_unconnected {share : Finset Handed} (hfd : sparkle.fd ≤ 0)
    (hshare : ∀ r, r ∈ share ↔ r = .block sparkle.address ∨
      (∃ buffer, sparkle.buffer = some buffer ∧ r = .mapping buffer) ∨
        (0 ≤ sparkle.bufferFd ∧ r = .descriptor sparkle.bufferFd)) : sparkle.Owns share where
  block := (hshare _).mpr (Or.inl rfl)
  fields r hr := by
    rw [hshare]
    rcases mem_fields.mp hr with ⟨hpos, -⟩ | hr | ⟨hpos, hr⟩
    · exact absurd hfd (not_le.mpr hpos)
    · exact Or.inr (Or.inl hr)
    · exact Or.inr (Or.inr ⟨hpos.le, hr⟩)
  separate hpos := absurd hfd (not_le.mpr hpos)
  only r hr := by
    rw [mem_fields]
    rcases (hshare r).mp hr with hr | hr | ⟨hnonneg, rfl⟩
    · exact Or.inl hr
    · exact Or.inr (Or.inl (Or.inr (Or.inl hr)))
    · rcases hnonneg.eq_or_lt with hzero | hpos
      · exact Or.inr (Or.inr (by rw [← hzero]))
      · exact Or.inr (Or.inl (Or.inr (Or.inr ⟨hpos, rfl⟩)))

end PcmSparkle

section Functions

variable {system : System} {sparkle : PcmSparkle} {pre : Finset Handed}

theorem tmpfileCreate_spec : Triple pre (tmpfileCreate system) fun fd share =>
    (fd = -1 ∧ share = pre) ∨ (0 ≤ fd ∧ share = insert (.descriptor fd) pre) := by
  rw [tmpfileCreate]
  split
  · exact .pure (Or.inl ⟨rfl, rfl⟩)
  · next name _ =>
    refine .acquire_bind fun hname => ?_
    split
    · refine .release_bind (Finset.mem_insert_self _ _) (.pure (Or.inl ⟨rfl, ?_⟩))
      exact Finset.erase_insert hname
    · next fd _ =>
      refine .acquire_bind fun hfd => .release_bind ?_ ?_
      · exact Finset.mem_insert_of_mem (Finset.mem_insert_self _ _)
      · rw [Finset.erase_insert_of_ne (by rintro ⟨⟩), Finset.erase_insert hname]
        split_ifs
        · exact .pure (Or.inr ⟨Int.natCast_nonneg fd, rfl⟩)
        · refine .release_bind (Finset.mem_insert_self _ _) (.pure (Or.inl ⟨rfl, ?_⟩))
          exact Finset.erase_insert fun hmem => hfd (Finset.mem_insert_of_mem hmem)

theorem tmpfileMap_spec {fd : Int} (hfd : .descriptor fd ∈ pre) :
    Triple pre (tmpfileMap system fd) fun buffer share =>
      share = buffer.elim pre fun buffer => insert (.mapping buffer) pre := by
  refine .touch_bind hfd ?_
  split
  · exact .pure rfl
  · exact .acquire_bind fun _ => .pure rfl

theorem unixSocketConnect_spec {path : List UInt8} :
    Triple pre (unixSocketConnect system path) fun fd share =>
      (fd = -1 ∧ share = pre) ∨
        (0 ≤ fd ∧ .descriptor fd ∉ pre ∧ share = insert (.descriptor fd) pre) := by
  rw [unixSocketConnect]
  split
  · exact .pure (Or.inl ⟨rfl, rfl⟩)
  · next fd _ =>
    refine .acquire_bind fun hfd => ?_
    split_ifs
    · exact .pure (Or.inr ⟨Int.natCast_nonneg fd, hfd, rfl⟩)
    · refine .release_bind (Finset.mem_insert_self _ _) (.pure (Or.inl ⟨rfl, ?_⟩))
      exact Finset.erase_insert hfd

theorem critical_spec {ret : Int} : Triple pre (critical ret) fun _ share => share = pre := by
  rw [critical]
  split_ifs
  · exact .finish
  · exact .pure rfl

theorem unixSocketSendFds_spec {fd sent : Int} (hfd : .descriptor fd ∈ pre)
    (hsent : .descriptor sent ∈ pre) :
    Triple pre (unixSocketSendFds system fd sent) fun _ share => share = pre := by
  rw [unixSocketSendFds]
  split
  · exact .finish
  · refine .acquire_bind fun hcontrol => .touch_bind (Finset.mem_insert_of_mem hfd) ?_
    refine .touch_bind (Finset.mem_insert_of_mem hsent) ?_
    exact .release_bind (Finset.mem_insert_self _ _) (.pure (Finset.erase_insert hcontrol))

theorem sendBuffer_spec (hfd : .descriptor sparkle.fd ∈ pre)
    (hbufferFd : .descriptor sparkle.bufferFd ∈ pre) :
    Triple pre (sendBuffer system sparkle) fun _ share => share = pre :=
  .touch_bind hfd <| critical_spec.keep_bind fun _ =>
    (unixSocketSendFds_spec hfd hbufferFd).keep_bind fun _ => critical_spec

/-- What an initialization leaves behind: a structure that can be given back, and that is complete
if all has gone well. -/
def Initialized (out : Int × PcmSparkle) (share : Finset Handed) : Prop :=
  out.2.Owns share ∧ (out.1 ≠ -1 → out.2.Complete ∧ share = out.2.share)

theorem connectBuffer_spec {path : List UInt8} {address bufferFd : Nat} {io : PcmIoplug}
    {fd : Int} {buffer : Nat} :
    Triple {.mapping buffer, .descriptor bufferFd, .block address}
      (connectBuffer system path ⟨address, io, fd, bufferFd, some buffer⟩) Initialized := by
  refine unixSocketConnect_spec.bind fun fd share hshare => ?_
  rcases hshare with ⟨rfl, rfl⟩ | ⟨hfd, hnew, rfl⟩
  · rw [if_pos rfl]
    have howns : PcmSparkle.Owns ⟨address, io, -1, bufferFd, some buffer⟩
        {.mapping buffer, .descriptor bufferFd, .block address} := by
      refine PcmSparkle.owns_unconnected (show (-1 : Int) ≤ 0 by decide) fun r => ?_
      simp only [Finset.mem_insert, Finset.mem_singleton, Option.some.injEq, exists_eq_left',
        Int.natCast_nonneg, true_and]
      tauto
    exact .pure ⟨howns, fun hne => absurd rfl hne⟩
  · rw [if_neg (by omega)]
    have hcomplete : PcmSparkle.Complete ⟨address, io, fd, bufferFd, some buffer⟩ := by
      refine ⟨hfd, Int.natCast_nonneg _, fun heq => hnew ?_, Option.some_ne_none buffer⟩
      rw [show fd = bufferFd from heq]
      exact Finset.mem_insert_of_mem (Finset.mem_insert_self _ _)
    have hshare : insert (.descriptor fd) {.mapping buffer, .descriptor (bufferFd : Int),
        .block address} = PcmSparkle.share ⟨address, io, fd, bufferFd, some buffer⟩ := by
      ext r
      simp only [PcmSparkle.mem_share, Finset.mem_insert, Finset.mem_singleton, Option.some.injEq,
        exists_eq_left']
      tauto
    rw [hshare]
    have hsend : Triple (PcmSparkle.share ⟨address, io, fd, bufferFd, some buffer⟩)
        (sendBuffer system ⟨address, io, fd, bufferFd, some buffer⟩)
        fun _ share => share = PcmSparkle.share ⟨address, io, fd, bufferFd, some buffer⟩ :=
      sendBuffer_spec (PcmSparkle.mem_share.mpr (Or.inr (Or.inl rfl)))
        (PcmSparkle.mem_share.mpr (Or.inr (Or.inr (Or.inl rfl))))
    exact hsend.keep_bind fun _ => .pure ⟨hcomplete.owns, fun _ => ⟨hcomplete, rfl⟩⟩

theorem sparkleInitialize_spec {path : List UInt8} {address : Nat} :
    Triple {.block address} (sparkleInitialize system path ⟨address, ⟨0, none⟩, 0, 0, none⟩)
      Initialized := by
  refine tmpfileCreate_spec.bind fun bufferFd share hshare => ?_
  rcases hshare with ⟨rfl, rfl⟩ | ⟨hbufferFd, rfl⟩
  · rw [if_pos rfl]
    refine .pure ⟨PcmSparkle.owns_unconnected le_rfl fun r => ?_, fun hne => absurd rfl hne⟩
    simp
  · rw [if_neg (by omega)]
    refine (tmpfileMap_spec (Finset.mem_insert_self _ _)).bind fun buffer share hshare => ?_
    subst hshare
    obtain ⟨bufferFd, rfl⟩ := Int.eq_ofNat_of_zero_le hbufferFd
    cases buffer with
    | none =>
      refine .pure ⟨PcmSparkle.owns_unconnected le_rfl fun r => ?_, fun hne => absurd rfl hne⟩
      simp [or_comm]
    | some buffer => exact .touch_bind (Finset.mem_insert_self _ _) connectBuffer_spec

theorem finishSocket_spec (hfd : 0 < sparkle.fd → .descriptor sparkle.fd ∈ pre) :
    Triple pre (finishSocket sparkle) fun sparkle' share =>
      (∃ fd, sparkle' = { sparkle with fd := fd }) ∧
        ∀ r, r ∈ share ↔ r ∈ pre ∧ ¬(0 < sparkle.fd ∧ r = .descriptor sparkle.fd) := by
  rw [finishSocket]
  split_ifs with hpos
  · refine .touch_bind (hfd hpos) (.release_bind (hfd hpos) (.pure ⟨⟨-1, rfl⟩, fun r => ?_⟩))
    rw [Finset.mem_erase, and_comm, and_iff_right hpos]
  · refine .pure ⟨⟨sparkle.fd, rfl⟩, fun r => ?_⟩
    rw [and_iff_left fun h => hpos h.1]

theorem finishMapping_spec (hbuffer : ∀ buffer, sparkle.buffer = some buffer →
    .mapping buffer ∈ pre) :
    Triple pre (finishMapping sparkle) fun sparkle' share =>
      (∃ buffer, sparkle' = { sparkle with buffer := buffer }) ∧
        ∀ r, r ∈ share ↔
          r ∈ pre ∧ ¬∃ buffer, sparkle.buffer = some buffer ∧ r = .mapping buffer := by
  rw [finishMapping]
  split
  · next buffer hsome =>
    refine .release_bind (hbuffer buffer hsome) (.pure ⟨⟨none, rfl⟩, fun r => ?_⟩)
    rw [Finset.mem_erase, and_comm, hsome]
    simp
  · next hnone =>
    refine .pure ⟨⟨sparkle.buffer, rfl⟩, fun r => ?_⟩
    rw [and_iff_left]
    rintro ⟨buffer, hbuffer, -⟩
    cases hnone.symm.trans hbuffer

theorem finishFile_spec (hbufferFd : 0 < sparkle.bufferFd → .descriptor sparkle.bufferFd ∈ pre) :
    Triple pre (finishFile sparkle) fun sparkle' share =>
      (∃ fd, sparkle' = { sparkle with bufferFd := fd }) ∧
        ∀ r, r ∈ share ↔ r ∈ pre ∧ ¬(0 < sparkle.bufferFd ∧ r = .descriptor sparkle.bufferFd) := by
  rw [finishFile]
  split_ifs with hpos
  · refine .release_bind (hbufferFd hpos) (.pure ⟨⟨-1, rfl⟩, fun r => ?_⟩)
    rw [Finset.mem_erase, and_comm, and_iff_right hpos]
  · refine .pure ⟨⟨sparkle.bufferFd, rfl⟩, fun r => ?_⟩
    rw [and_iff_left fun h => hpos h.1]

/-- What `sparkle_finish` gives back. -/
theorem sparkleFinish_spec (h : sparkle.Owns pre) :
    Triple pre (sparkleFinish sparkle) fun sparkle' share =>
      sparkle'.address = sparkle.address ∧ ∀ r, r ∈ share ↔ r ∈ pre ∧ r ∉ sparkle.fields := by
  have hmem : ∀ {r}, _ → r ∈ pre := fun hr => h.fields (PcmSparkle.mem_fields.mpr hr)
  refine (finishSocket_spec fun hpos => hmem (Or.inl ⟨hpos, rfl⟩)).bind fun _ pre₁ hshare => ?_
  obtain ⟨⟨fd, rfl⟩, hpre₁⟩ := hshare
  refine (finishMapping_spec fun buffer hbuffer => ?_).bind fun _ pre₂ hshare => ?_
  · exact (hpre₁ _).mpr ⟨hmem (Or.inr (Or.inl ⟨buffer, hbuffer, rfl⟩)), by rintro ⟨-, ⟨⟩⟩⟩
  obtain ⟨⟨buffer, rfl⟩, hpre₂⟩ := hshare
  refine (finishFile_spec fun hpos => ?_).weaken fun sparkle' share hshare => ?_
  · refine (hpre₂ _).mpr ⟨(hpre₁ _).mpr ⟨hmem (Or.inr (Or.inr ⟨hpos, rfl⟩)), ?_⟩, ?_⟩
    · rintro ⟨hfd, heq⟩
      exact h.separate hfd (Handed.descriptor.inj heq).symm
    · rintro ⟨_, -, ⟨⟩⟩
  obtain ⟨⟨fd', rfl⟩, hshare⟩ := hshare
  refine ⟨rfl, fun r => ?_⟩
  rw [hshare, hpre₂, hpre₁, PcmSparkle.mem_fields, not_or, not_or, and_assoc, and_assoc]

/-- Closing leaves descriptor 0 behind, at most. -/
theorem sparkleClose_spec (h : sparkle.Owns pre) :
    Triple pre (sparkleClose sparkle) fun _ share => share ⊆ {.descriptor 0} := by
  refine (sparkleFinish_spec h).bind fun sparkle' share hshare => ?_
  obtain ⟨haddress, hshare⟩ := hshare
  have hblock : .block sparkle'.address ∈ share := by
    rw [haddress, hshare, PcmSparkle.mem_fields]
    exact ⟨h.block, by rintro (⟨-, ⟨⟩⟩ | ⟨_, -, ⟨⟩⟩ | ⟨-, ⟨⟩⟩)⟩
  refine (Triple.release hblock).weaken fun _ share' heq r hr => ?_
  rw [heq, Finset.mem_erase, hshare, haddress] at hr
  obtain ⟨hne, hpre, hfields⟩ := hr
  exact Finset.mem_singleton.mpr (((h.only r hpre).resolve_left hne).resolve_left hfields)

theorem sparkleCommand_spec {sent : Bool} :
    Triple sparkle.share (sparkleCommand sparkle sent) fun _ share => share = sparkle.share :=
  .touch_bind (PcmSparkle.mem_share.mpr (Or.inr (Or.inl rfl))) critical_spec

theorem sparkleTransfer_spec (h : sparkle.Complete) :
    Triple sparkle.share (sparkleTransfer sparkle) fun _ share => share = sparkle.share := by
  rw [sparkleTransfer]
  split
  · next buffer hbuffer =>
    exact .touch (PcmSparkle.mem_share.mpr (Or.inr (Or.inr (Or.inr ⟨buffer, hbuffer, rfl⟩))))
  · next hnone => exact absurd hnone h.buffer

/-- What opening leaves behind: a PCM, or at most descriptor 0. -/
def Opened (stream : PcmStream) (share : Finset Handed) : Except Int PcmSparkle → Prop
  | .ok sparkle =>
    sparkle.Complete ∧ sparkle.io = ⟨sparkle.fd, some stream⟩ ∧ share = sparkle.share
  | .error _ => share ⊆ {.descriptor 0}

theorem openSparkle_spec {conf : List ConfigNode} {stream : PcmStream} :
    Triple ∅ (openSparkle system conf stream) fun out share => Opened stream share out := by
  rw [openSparkle]
  split
  · exact .pure (Finset.empty_subset _)
  split
  · exact .pure (Finset.empty_subset _)
  refine .acquire_bind fun _ => sparkleInitialize_spec.bind fun out share hshare => ?_
  obtain ⟨howns, hcomplete⟩ := hshare
  split_ifs with hfailed
  · exact (sparkleClose_spec howns).bind fun _ _ hzero => .pure hzero
  · obtain ⟨hwhole, rfl⟩ := hcomplete hfailed
    rw [createIoplug]
    split_ifs
    · exact (sparkleClose_spec howns).bind fun _ _ hzero => .pure hzero
    · exact (sparkleClose_spec howns).bind fun _ _ hzero => .pure hzero
    · exact .pure ⟨⟨hwhole.fd, hwhole.bufferFd, hwhole.ne, hwhole.buffer⟩, rfl, rfl⟩

end Functions

/-! ## The books -/

namespace PcmProcess

/-- What all PCMs have. -/
def shares (pcms : List PcmSparkle) : Finset Handed :=
  pcms.foldr (fun sparkle held => sparkle.share ∪ held) ∅

theorem shares_cons (sparkle : PcmSparkle) (pcms : List PcmSparkle) :
    shares (sparkle :: pcms) = sparkle.share ∪ shares pcms := rfl

theorem mem_shares {pcms : List PcmSparkle} {r : Handed} :
    r ∈ shares pcms ↔ ∃ sparkle ∈ pcms, r ∈ sparkle.share := by
  induction pcms with
  | nil => simp [shares]
  | cons sparkle pcms ih =>
    rw [shares_cons, Finset.mem_union, ih]
    simp

theorem shares_perm {pcms pcms' : List PcmSparkle} (h : pcms.Perm pcms') :
    shares pcms = shares pcms' := by
  ext r
  rw [mem_shares, mem_shares]
  exact exists_congr fun _ => and_congr_left fun _ => h.mem_iff

/-- The books of a process: what it holds is what the rest of it has been handed, what the open PCMs
have, each for itself and complete, and what is lost, which is descriptor 0 if there is any. -/
structure Accounts (s : PcmProcess) (lost : Finset Handed) : Prop where
  zero : lost ⊆ {.descriptor 0}
  held : s.held = s.others ∪ lost ∪ shares s.pcms
  others : Disjoint s.others lost
  rest : ∀ sparkle ∈ s.pcms, Disjoint sparkle.share (s.others ∪ lost)
  pairwise : s.pcms.Pairwise fun p q => Disjoint p.share q.share
  complete : ∀ sparkle ∈ s.pcms, sparkle.Complete ∧ sparkle.io.pollFd = sparkle.fd

variable {s t : PcmProcess} {lost : Finset Handed} {sparkle : PcmSparkle}

theorem disjoint_shares {pcms : List PcmSparkle} {held : Finset Handed} :
    Disjoint held (shares pcms) ↔ ∀ sparkle ∈ pcms, Disjoint held sparkle.share := by
  refine ⟨fun h sparkle hsparkle => h.mono_right fun r hr => ?_, fun h => ?_⟩
  · exact mem_shares.mpr ⟨sparkle, hsparkle, hr⟩
  · refine Finset.disjoint_right.mpr fun r hr => ?_
    obtain ⟨sparkle, hsparkle, hr⟩ := mem_shares.mp hr
    exact Finset.disjoint_right.mp (h sparkle hsparkle) hr

/-- The books with one PCM in front. -/
theorem Accounts.split (h : s.Accounts lost) (hsparkle : sparkle ∈ s.pcms) :
    s.held = sparkle.share ∪ (s.others ∪ lost ∪ shares (s.pcms.erase sparkle)) ∧
      Disjoint sparkle.share (s.others ∪ lost ∪ shares (s.pcms.erase sparkle)) := by
  have hperm := List.perm_cons_erase hsparkle
  constructor
  · rw [h.held, shares_perm hperm, shares_cons, Finset.union_left_comm]
  · rw [Finset.disjoint_union_right, disjoint_shares]
    refine ⟨h.rest sparkle hsparkle, fun q hq => ?_⟩
    have hpairwise := (hperm.pairwise_iff fun hdisjoint => Disjoint.symm hdisjoint).mp h.pairwise
    exact List.rel_of_pairwise_cons hpairwise hq

/-- **Opening** -/
theorem Accounts.openPcm (h : s.Accounts lost) {system : System} {conf : List ConfigNode}
    {stream : PcmStream} {out : Except Int PcmSparkle} {held : Finset Handed}
    (hopen : openSparkle system conf stream s.held = .ok (out, held)) :
    ∃ lost, Accounts { s with held := held, pcms := opened s.pcms out } lost := by
  rw [← Finset.empty_union s.held] at hopen
  obtain ⟨share, hdisjoint, rfl, hopened⟩ :=
    openSparkle_spec.returns (Finset.disjoint_empty_left _) hopen
  rw [h.held, Finset.disjoint_union_right, disjoint_shares] at hdisjoint
  obtain ⟨hrest, hpcms⟩ := hdisjoint
  cases out with
  | ok sparkle =>
    obtain ⟨hcomplete, hio, rfl⟩ := hopened
    refine ⟨lost, h.zero, ?_, h.others, ?_, ?_, ?_⟩
    · show sparkle.share ∪ s.held = s.others ∪ lost ∪ shares (sparkle :: s.pcms)
      rw [h.held, shares_cons, Finset.union_left_comm]
    · exact List.forall_mem_cons.mpr ⟨hrest, h.rest⟩
    · exact List.pairwise_cons.mpr ⟨hpcms, h.pairwise⟩
    · exact List.forall_mem_cons.mpr ⟨⟨hcomplete, congrArg PcmIoplug.pollFd hio⟩, h.complete⟩
  | error _ =>
    obtain ⟨hothers, -⟩ := Finset.disjoint_union_right.mp hrest
    refine ⟨lost ∪ share, Finset.union_subset h.zero hopened, ?_, ?_, ?_, h.pairwise, h.complete⟩
    · show share ∪ s.held = s.others ∪ (lost ∪ share) ∪ shares s.pcms
      rw [h.held, ← Finset.union_assoc s.others, Finset.union_right_comm _ share,
        Finset.union_comm share]
    · exact Finset.disjoint_union_right.mpr ⟨h.others, hothers.symm⟩
    · intro sparkle hsparkle
      show Disjoint sparkle.share (s.others ∪ (lost ∪ share))
      rw [← Finset.union_assoc]
      exact Finset.disjoint_union_right.mpr ⟨h.rest sparkle hsparkle, (hpcms sparkle hsparkle).symm⟩

/-- **Closing** -/
theorem Accounts.closePcm (h : s.Accounts lost) (hsparkle : sparkle ∈ s.pcms) {held : Finset Handed}
    (hclose : sparkleClose sparkle s.held = .ok (⟨⟩, held)) :
    ∃ lost, Accounts { s with held := held, pcms := s.pcms.erase sparkle } lost := by
  obtain ⟨hheld, hdisjoint⟩ := h.split hsparkle
  rw [hheld] at hclose
  obtain ⟨share, hrest, rfl, hzero⟩ :=
    (sparkleClose_spec (h.complete sparkle hsparkle).1.owns).returns hdisjoint hclose
  obtain ⟨hothers, hpcms⟩ := Finset.disjoint_union_right.mp hrest
  rw [disjoint_shares] at hpcms
  have hsub : ∀ q ∈ s.pcms.erase sparkle, q ∈ s.pcms := fun q => List.mem_of_mem_erase
  refine ⟨lost ∪ share, Finset.union_subset h.zero hzero, ?_, ?_, fun q hq => ?_,
    h.pairwise.sublist List.erase_sublist, fun q hq => h.complete q (hsub q hq)⟩
  · show share ∪ _ = s.others ∪ (lost ∪ share) ∪ shares (s.pcms.erase sparkle)
    rw [← Finset.union_assoc s.others, Finset.union_right_comm _ share, Finset.union_comm share]
  · exact Finset.disjoint_union_right.mpr
      ⟨h.others, (Finset.disjoint_union_right.mp hothers).1.symm⟩
  · show Disjoint q.share (s.others ∪ (lost ∪ share))
    rw [← Finset.union_assoc]
    exact Finset.disjoint_union_right.mpr ⟨h.rest q (hsub q hq), (hpcms q hq).symm⟩

/-- **The rest of the process** is handed something. -/
theorem Accounts.handOut (h : s.Accounts lost) {r : Handed} (hr : r ∉ s.held) :
    Accounts { s with held := insert r s.held, others := insert r s.others } lost := by
  rw [h.held, Finset.mem_union, Finset.mem_union, not_or, not_or] at hr
  obtain ⟨⟨-, hlost⟩, hshares⟩ := hr
  refine ⟨h.zero, ?_, Finset.disjoint_insert_left.mpr ⟨hlost, h.others⟩, fun q hq => ?_,
    h.pairwise, h.complete⟩
  · rw [h.held, Finset.insert_union, Finset.insert_union]
  · show Disjoint q.share (insert r s.others ∪ lost)
    rw [Finset.insert_union, Finset.disjoint_insert_right]
    exact ⟨fun hr => hshares (mem_shares.mpr ⟨q, hq, hr⟩), h.rest q hq⟩

/-- It gives something back. -/
theorem Accounts.giveBack (h : s.Accounts lost) {r : Handed} (hr : r ∈ s.others) :
    Accounts { s with held := s.held.erase r, others := s.others.erase r } lost := by
  have hlost : r ∉ lost := Finset.disjoint_left.mp h.others hr
  have hshares : r ∉ shares s.pcms := by
    intro hmem
    obtain ⟨q, hq, hmem⟩ := mem_shares.mp hmem
    exact Finset.disjoint_left.mp (h.rest q hq) hmem (Finset.mem_union_left _ hr)
  refine ⟨h.zero, ?_, h.others.mono_left (Finset.erase_subset _ _), fun q hq => ?_,
    h.pairwise, h.complete⟩
  · rw [h.held, Finset.erase_union_distrib, Finset.erase_union_distrib,
      Finset.erase_eq_of_notMem hlost, Finset.erase_eq_of_notMem hshares]
  · exact (h.rest q hq).mono_right (Finset.union_subset_union_left (Finset.erase_subset _ _))

/-- The books are kept, and no mistake has been made. -/
def Kept (s : PcmProcess) : Prop := s.stopped ≠ some .mistaken ∧ ∃ lost, s.Accounts lost

/-- A program of the plugin. -/
theorem Kept.perform (h : s.Kept) {α : Type} {p : Holding Handed Death α}
    {pcms : α → List PcmSparkle} (hrunning : s.stopped = none)
    (hmistaken : p s.held ≠ .error .mistaken)
    (hreturns : ∀ a held, p s.held = .ok (a, held) →
      ∃ lost, Accounts { s with held := held, pcms := pcms a } lost)
    (hperform : s.perform p pcms = some t) : t.Kept := by
  rw [PcmProcess.perform] at hperform
  split at hperform
  · next a held hok =>
    cases hperform
    exact ⟨hrunning ▸ (Option.some_ne_none _).symm, hreturns a held hok⟩
  · cases hperform
  · next stop _ herror =>
    cases hperform
    obtain ⟨lost, hlost⟩ := h.2
    refine ⟨fun heq => hmistaken ?_, lost, ⟨hlost.zero, hlost.held, hlost.others, hlost.rest,
      hlost.pairwise, hlost.complete⟩⟩
    rw [herror, Option.some.inj heq]

/-- What an open PCM is used for leaves all as it is. -/
theorem Kept.use (h : s.Kept) (hrunning : s.stopped = none) (hsparkle : sparkle ∈ s.pcms)
    {p : Holding Handed Death PUnit}
    (hp : sparkle.Complete → Triple sparkle.share p fun _ share => share = sparkle.share)
    (hperform : s.perform p (fun _ => s.pcms) = some t) : t.Kept := by
  obtain ⟨lost, hlost⟩ := h.2
  obtain ⟨hheld, hdisjoint⟩ := hlost.split hsparkle
  have hspec := hp (hlost.complete sparkle hsparkle).1
  refine h.perform hrunning ?_ (fun _ held hrun => ?_) hperform
  · rw [hheld]
    exact hspec.not_mistaken hdisjoint
  · rw [hheld] at hrun
    obtain ⟨share, -, rfl, rfl⟩ := hspec.returns hdisjoint hrun
    rw [← hheld]
    exact ⟨lost, hlost⟩

/-- **Step** -/
theorem Kept.step (h : s.Kept) {a : Label} (hstep : s.step a = some t) : t.Kept := by
  obtain ⟨hrunning, hstep⟩ := Option.ite_none_right_eq_some.mp hstep
  obtain ⟨lost, hlost⟩ := h.2
  cases a with
  | openPcm system conf stream =>
    refine h.perform hrunning ?_ (fun out held hopen => hlost.openPcm hopen) hstep
    have hspec : Triple ∅ (openSparkle system conf stream) fun out share =>
        Opened stream share out := openSparkle_spec
    rw [← Finset.empty_union s.held]
    exact hspec.not_mistaken (Finset.disjoint_empty_left _)
  | command sparkle sent =>
    obtain ⟨hsparkle, hstep⟩ := Option.ite_none_right_eq_some.mp hstep
    exact h.use hrunning hsparkle (fun _ => sparkleCommand_spec) hstep
  | transfer sparkle =>
    obtain ⟨hsparkle, hstep⟩ := Option.ite_none_right_eq_some.mp hstep
    exact h.use hrunning hsparkle sparkleTransfer_spec hstep
  | closePcm sparkle =>
    obtain ⟨hsparkle, hstep⟩ := Option.ite_none_right_eq_some.mp hstep
    obtain ⟨hheld, hdisjoint⟩ := hlost.split hsparkle
    refine h.perform hrunning ?_ (fun _ held hclose => hlost.closePcm hsparkle hclose) hstep
    rw [hheld]
    exact (sparkleClose_spec (hlost.complete sparkle hsparkle).1.owns).not_mistaken hdisjoint
  | handOut r =>
    obtain ⟨hr, ht⟩ := Option.ite_none_left_eq_some.mp hstep
    cases ht
    exact ⟨h.1, lost, hlost.handOut hr⟩
  | giveBack r =>
    obtain ⟨hr, ht⟩ := Option.ite_none_right_eq_some.mp hstep
    cases ht
    exact ⟨h.1, lost, hlost.giveBack hr⟩

/-- **The books are kept**: in every run, whatever the system answers, nothing is used or given back
that is not held; each open PCM has its own descriptors, mapping and block and all of
them, and nothing else that the plugin has been handed is held any longer, but for
descriptor 0. While that is open elsewhere, nothing is lost at all. -/
theorem books_kept {as : List Label} (h : machine.Reaches as s) :
    s.stopped ≠ some .mistaken ∧ ∃ lost, s.Accounts lost ∧
      (.descriptor 0 ∈ s.others → s.held = s.others ∪ shares s.pcms) := by
  have hkept : s.Kept := by
    refine Machine.invariant (M := machine) ?_ (fun s a t hs hstep => hs.step hstep) h
    rintro s ⟨hheld, hpcms, hstopped⟩
    refine ⟨hstopped ▸ (Option.some_ne_none _).symm, ∅, Finset.empty_subset _, ?_,
      Finset.disjoint_empty_right _, ?_, ?_, ?_⟩
    · rw [hheld, hpcms]
      simp [shares]
    all_goals simp [hpcms]
  obtain ⟨hmistaken, lost, hlost⟩ := hkept
  refine ⟨hmistaken, lost, hlost, fun hzero => ?_⟩
  have hnone : lost = ∅ := by
    refine Finset.subset_empty.mp fun r hr => ?_
    rw [Finset.mem_singleton.mp (hlost.zero hr)] at hr
    exact absurd hr (Finset.disjoint_left.mp hlost.others hzero)
  rw [hlost.held, hnone, Finset.union_empty]

/-- All goes well, and the file gets descriptor 0, which has been closed. -/
def zeroAnswers : System where
  calloc := some 1
  name := some 2
  mkstemp := some 0
  ftruncate := true
  mmap := some 3
  socket := some 4
  connect _ := true
  sendAll := true
  control := some 2
  sendmsg := 1
  ioplugCreate := 0
  setParam _ := 0

/-- A PCM is opened, started and closed. -/
def zeroLost : List Label :=
  let sparkle : PcmSparkle := ⟨1, ⟨4, some .playback⟩, 4, 0, some 3⟩
  [.openPcm zeroAnswers [⟨some "type", none⟩] .playback, .command sparkle true,
    .transfer sparkle, .closePcm sparkle]

theorem books_kept_zeroLost : ∃ s, machine.Reaches zeroLost s ∧ s.held = {.descriptor 0} ∧
    s.others = ∅ ∧ s.pcms = [] ∧ s.stopped ≠ some .mistaken ∧ ∃ lost, s.Accounts lost := by
  have hrun : (zeroLost.foldlM step ⟨∅, ∅, [], none⟩).map
      (fun s => (s.held, s.others, s.pcms)) = some ({.descriptor 0}, ∅, []) := by
    decide +kernel
  obtain ⟨s, hs, hstate⟩ := Option.map_eq_some_iff.mp hrun
  obtain ⟨hheld, hstate⟩ := Prod.mk.inj hstate
  obtain ⟨hothers, hpcms⟩ := Prod.mk.inj hstate
  have hreaches : machine.Reaches zeroLost s :=
    ⟨_, ⟨rfl, rfl, rfl⟩, Machine.Path.of_run hs⟩
  obtain ⟨hmistaken, lost, hlost, -⟩ := books_kept hreaches
  exact ⟨s, hreaches, hheld, hothers, hpcms, hmistaken, lost, hlost⟩

end PcmProcess

end SparkleWayland
