import Uw7.Lib.Run

/-!
# Switching the transaction file

`compress_db` writes the state to a new file and moves names around so that the
new file becomes the live transaction file.  Every system call may fail, and the
server may crash between any two of them; `init_db` then takes the live file, or
the old one when there is no live one.
-/

namespace Uw7.Aas

open Uw7.Lib Function Option

/-- The names in the database directory. -/
inductive FileName where
  | trans
  | oldTrans
  | newTrans
deriving DecidableEq

structure Directory (Transaction : Type) where
  names : FileName → Option Nat
  contents : Nat → List Transaction
  nextFile : Nat

/-- Where the server is: the system call it makes next.  Within `compress_db`
the new file is open. -/
inductive Place where
  | serving
  | unlinkNew
  | openNew
  | writeState (fd : Nat)
  | setFlags (fd : Nat)
  | unlinkOld (fd : Nat)
  | linkOld (fd : Nat)
  | unlinkTrans (fd : Nat)
  | linkNew (fd : Nat)
  | unlinkNewLast (fd : Nat)
  | unlinkOldLast (fd : Nat)
  | down
  | initLink (file : Nat)
  | initUnlink (file : Nat)
deriving DecidableEq

/-- The server: the file at `db_fd`, the transactions its memory stands for, and
those it has acknowledged. -/
structure Server (Transaction : Type) where
  directory : Directory Transaction
  place : Place
  dbFd : Nat
  memory : List Transaction
  acknowledged : List Transaction

/-- What happens next. -/
inductive Event (Transaction : Type) where
  | record (transaction : Transaction)
  | compress
  | returns (ok : Bool)
  | crash
  | restart

variable {Transaction : Type}

/-- `unlink`, when it succeeds; a name that is not there stays so. -/
def Directory.unlink (directory : Directory Transaction)
    (name : FileName) : Directory Transaction :=
  { directory with names := update directory.names name none }

/-- `link`, which needs the one name and not the other. -/
def Directory.link (directory : Directory Transaction)
    (existing name : FileName) : Option (Directory Transaction) :=
  match directory.names existing, directory.names name with
  | some file, none =>
    some
      { directory with
        names := update directory.names name (some file) }
  | _, _ => none

/-- `open` with `O_CREAT|O_EXCL`. -/
def Directory.create (directory : Directory Transaction)
    (name : FileName) : Option (Directory Transaction) :=
  match directory.names name with
  | some _ => none
  | none =>
    some
      { names := update directory.names name (some directory.nextFile)
        contents := update directory.contents directory.nextFile []
        nextFile := directory.nextFile + 1 }

def Directory.unlinkIf (directory : Directory Transaction) (ok : Bool)
    (name : FileName) : Directory Transaction :=
  if ok then directory.unlink name else directory

/-- The server goes on from another place. -/
def Server.goTo (server : Server Transaction) (place : Place) : Server Transaction :=
  { server with place := place }

def Server.serve (server : Server Transaction) (file : Nat) : Server Transaction :=
  { server with
    place := .serving
    dbFd := file
    memory := server.directory.contents file }

/-- A system call returns, with or without success. -/
def Server.returns? (server : Server Transaction) (ok : Bool) : Option (Server Transaction) :=
  match server.place with
  | .serving | .down => none
  | .unlinkNew =>
    some
      { server with
        directory := server.directory.unlinkIf ok .newTrans
        place := .openNew }
  | .openNew =>
    if ok then
      (server.directory.create .newTrans).map fun directory =>
        { server with
          directory := directory
          place := .writeState server.directory.nextFile }
    else some (server.goTo .serving)
  | .writeState fd =>
    if ok then
      some
        { server with
          directory :=
            { server.directory with
              contents := update server.directory.contents fd server.memory }
          place := .setFlags fd }
    else some (server.goTo .serving)
  | .setFlags fd => some (server.goTo (if ok then .unlinkOld fd else .serving))
  | .unlinkOld fd =>
    some
      { server with
        directory := server.directory.unlinkIf ok .oldTrans
        place := .linkOld fd }
  | .linkOld fd =>
    if ok then
      (server.directory.link .trans .oldTrans).map fun directory =>
        { server with directory := directory, place := .unlinkTrans fd }
    else some (server.goTo .serving)
  | .unlinkTrans fd =>
    some
      { server with
        directory := server.directory.unlinkIf ok .trans
        place := .linkNew fd }
  | .linkNew fd =>
    if ok then
      (server.directory.link .newTrans .trans).map fun directory =>
        { server with directory := directory, place := .unlinkNewLast fd }
    else some (server.goTo .serving)
  | .unlinkNewLast fd =>
    some
      { server with
        directory := server.directory.unlinkIf ok .newTrans
        place := .unlinkOldLast fd }
  | .unlinkOldLast fd =>
    some
      { server with
        directory := server.directory.unlinkIf ok .oldTrans
        place := .serving
        dbFd := fd }
  | .initLink file =>
    if ok then
      (server.directory.link .oldTrans .trans).map fun directory =>
        { server with directory := directory, place := .initUnlink file }
    else some (server.goTo .down)
  | .initUnlink file =>
    some (Server.serve
        { server with
          directory := server.directory.unlinkIf ok .oldTrans } file)

/-- A server without a transaction file begins a new one. -/
def Server.startOver (server : Server Transaction) : Server Transaction :=
  { server with
    directory :=
      { names := update server.directory.names .trans (some server.directory.nextFile)
        contents := update server.directory.contents server.directory.nextFile []
        nextFile := server.directory.nextFile + 1 }
    place := .serving
    dbFd := server.directory.nextFile
    memory := [] }

/-- What the server does next; a call cannot succeed against the directory. -/
def Server.step? (server : Server Transaction) : Event Transaction → Option (Server Transaction)
  | .record transaction =>
    if server.place = .serving then
      some
        { server with
          directory :=
            { server.directory with
              contents := update server.directory.contents server.dbFd
                  (server.directory.contents server.dbFd ++ [transaction]) }
          memory := server.memory ++ [transaction]
          acknowledged := server.acknowledged ++ [transaction] }
    else none
  | .compress =>
    if server.place = .serving then some (server.goTo .unlinkNew)
    else none
  | .returns ok => server.returns? ok
  | .crash =>
    if server.place = .down then none
    else some { server with place := .down, memory := [] }
  | .restart =>
    if server.place = .down then
      match server.directory.names .trans, server.directory.names .oldTrans with
      | some file, _ => some (server.serve file)
      | none, some file => some (server.goTo (.initLink file))
      | none, none => some server.startOver
    else none

def Server.step (before : Server Transaction) (event : Event Transaction)
    (after : Server Transaction) : Prop :=
  before.step? event = some after

/-- A server that has just begun with an empty file. -/
def Server.start : Server Transaction where
  directory :=
    { names := fun name => if name = .trans then some 0 else none
      contents := fun _ => []
      nextFile := 1 }
  place := .serving
  dbFd := 0
  memory := []
  acknowledged := []

def Server.HoldsAll (server : Server Transaction) (file : Nat) : Prop :=
  ∀ transaction, transaction ∈ server.acknowledged → transaction ∈ server.directory.contents file

/-- The live file, or the old one when there is none, holds every transaction
acknowledged so far. -/
def Server.Recoverable (server : Server Transaction) : Prop := ∃ file,
    (server.directory.names .trans).or (server.directory.names .oldTrans) = some file ∧
      server.HoldsAll file

def Server.Remembers (server : Server Transaction) : Prop := server.place = .serving →
    ∀ transaction, transaction ∈ server.acknowledged → transaction ∈ server.memory

/-- The old name is removed only while the live name is there. -/
def liveNameKept (server : Server Transaction) (event : Event Transaction) : Prop :=
  ∀ fd, server.place = .unlinkOld fd → event = .returns true → server.directory.names .trans ≠ none

/-- The file at `db_fd` holds everything, as the memory does, and is the one
that a restart takes. -/
structure Server.Live (server : Server Transaction) : Prop where
  holds : server.HoldsAll server.dbFd
  remembers : ∀ transaction, transaction ∈ server.acknowledged → transaction ∈ server.memory
  named : server.directory.names .trans = some server.dbFd ∨ (server.directory.names .trans = none ∧
      server.directory.names .oldTrans = some server.dbFd)

/-- What holds where the server is. -/
def Server.PlaceInvariant (server : Server Transaction) : Prop :=
  match server.place with
  | .serving | .unlinkNew | .openNew => server.Live
  | .writeState fd => server.Live ∧ server.directory.names .newTrans = some fd ∧ fd ≠ server.dbFd
  | .setFlags fd | .unlinkOld fd | .linkOld fd =>
    server.Live ∧ server.directory.names .newTrans = some fd ∧ fd ≠ server.dbFd ∧ server.HoldsAll fd
  | .unlinkTrans fd =>
    server.Live ∧ server.directory.names .newTrans = some fd ∧ server.HoldsAll fd ∧
      server.directory.names .trans = some server.dbFd ∧
      server.directory.names .oldTrans = some server.dbFd
  | .linkNew fd =>
    server.Live ∧ server.directory.names .newTrans = some fd ∧ server.HoldsAll fd ∧
      server.directory.names .oldTrans = some server.dbFd
  | .unlinkNewLast fd | .unlinkOldLast fd =>
    server.directory.names .trans = some fd ∧ server.HoldsAll fd ∧
      ∀ transaction, transaction ∈ server.acknowledged → transaction ∈ server.memory
  | .down => server.Recoverable
  | .initLink file =>
    server.directory.names .trans = none ∧ server.directory.names .oldTrans = some file ∧
      server.HoldsAll file
  | .initUnlink file => server.directory.names .trans = some file ∧ server.HoldsAll file

/-- What holds between any two system calls: where the server is, and that files
are made new. -/
structure Server.Invariant (server : Server Transaction) : Prop where
  place : server.PlaceInvariant
  made : ∀ name file, server.directory.names name = some file → file < server.directory.nextFile
  dbMade : server.dbFd < server.directory.nextFile

variable {server after : Server Transaction} {directory : Directory Transaction}
  {name existing : FileName} {file : Nat}

theorem Server.Live.recoverable (live : server.Live) : server.Recoverable := by
  refine ⟨server.dbFd, ?_, live.holds⟩
  rcases live.named with trans | ⟨gone, old⟩
  · rw [trans]
    rfl
  · rw [gone, old]
    rfl

theorem Server.Invariant.recoverable (invariant : server.Invariant) : server.Recoverable := by
  have place := invariant.place
  unfold Server.PlaceInvariant at place
  split at place
  case h_1 | h_2 | h_3 => exact place.recoverable
  case h_4 | h_5 | h_6 | h_7 | h_8 | h_9 => exact place.1.recoverable
  case h_10 fd _ | h_11 fd _ => exact ⟨fd, by rw [place.1]; rfl, place.2.1⟩
  case h_12 => exact place
  case h_13 file _ => exact ⟨file, by rw [place.1, place.2.1]; rfl, place.2.2⟩
  case h_14 file _ => exact ⟨file, by rw [place.1]; rfl, place.2⟩

theorem Server.Invariant.remembers (invariant : server.Invariant) : server.Remembers := by
  intro serving
  have place := invariant.place
  simp only [Server.PlaceInvariant, serving] at place
  exact place.remembers

theorem made_unlinkIf
    (made : ∀ name file, directory.names name = some file → file < directory.nextFile) (ok : Bool)
    (removed : FileName) : ∀ name file, (directory.unlinkIf ok removed).names name = some file →
      file < (directory.unlinkIf ok removed).nextFile := by
  intro name file named
  unfold Directory.unlinkIf at named ⊢
  split at named
  · rename_i isOk
    rw [if_pos isOk]
    by_cases same : name = removed
    · subst same
      simp [Directory.unlink] at named
    · simp only [Directory.unlink, update_of_ne same] at named
      exact made name file named
  · rename_i notOk
    rw [if_neg notOk]
    exact made name file named

theorem names_unlinkIf (directory : Directory Transaction) (ok : Bool) {removed : FileName}
    (other : name ≠ removed) :
    (directory.unlinkIf ok removed).names name = directory.names name := by
  unfold Directory.unlinkIf
  split
  · simp only [Directory.unlink, update_of_ne other]
  · rfl

@[simp] theorem contents_unlinkIf (directory : Directory Transaction) (ok : Bool)
    (removed : FileName) : (directory.unlinkIf ok removed).contents = directory.contents := by
  unfold Directory.unlinkIf
  split <;> rfl

theorem link_eq {linked : Directory Transaction} (made : directory.link existing name = some linked)
    : ∃ file, directory.names existing = some file ∧ directory.names name = none ∧ linked =
      { directory with
        names := update directory.names name (some file) } := by
  unfold Directory.link at made
  split at made
  case h_1 file named free => exact ⟨file, named, free, (some.inj made).symm⟩
  case h_2 => cases made

theorem create_eq {created : Directory Transaction} (made : directory.create name = some created) :
    directory.names name = none ∧ created =
      { names := update directory.names name (some directory.nextFile)
        contents := update directory.contents directory.nextFile []
        nextFile := directory.nextFile + 1 } := by
  unfold Directory.create at made
  split at made
  case h_1 => cases made
  case h_2 free => exact ⟨free, (some.inj made).symm⟩

theorem Server.Live.congr {server other : Server Transaction} (live : server.Live)
    (acknowledged : other.acknowledged = server.acknowledged)
    (memory : other.memory = server.memory) (dbFd : other.dbFd = server.dbFd)
    (contents : other.directory.contents server.dbFd = server.directory.contents server.dbFd)
    (trans : other.directory.names .trans = server.directory.names .trans)
    (old : server.directory.names .trans = none → other.directory.names .oldTrans =
      server.directory.names .oldTrans) :
    other.Live := by
  constructor
  · intro transaction member
    rw [dbFd, contents]
    rw [acknowledged] at member
    exact live.holds transaction member
  · rw [acknowledged, memory]
    exact live.remembers
  · rw [trans, dbFd]
    rcases live.named with named | ⟨gone, named⟩
    · exact .inl named
    · exact .inr ⟨gone, (old gone).trans named⟩

theorem Server.Live.goTo (live : server.Live) (place : Place) : (server.goTo place).Live :=
  ⟨live.holds, live.remembers, live.named⟩

theorem made_link (made : ∀ name file, directory.names name = some file → file < directory.nextFile)
    {linked : FileName} (named : directory.names existing = some file) :
    ∀ name other, update directory.names linked (some file) name = some other →
      other < directory.nextFile := by
  intro name other
  by_cases same : name = linked
  · subst same
    rw [update_self]
    rintro ⟨⟩
    exact made existing file named
  · rw [update_of_ne same]
    exact made name other

/-- A system call that returns keeps the invariant, unless it removes the only
name of the live file. -/
theorem Server.Invariant.returns {ok : Bool} (invariant : server.Invariant)
    (kept : liveNameKept server (.returns ok)) (taken : server.returns? ok = some after) :
    after.Invariant := by
  obtain ⟨place, made, dbMade⟩ := invariant
  unfold Server.PlaceInvariant at place
  unfold Server.returns? at taken
  cases at' : server.place with
  | serving | down =>
    simp only [at'] at taken
    cases taken
  | unlinkNew =>
    simp only [at'] at taken place
    cases taken
    refine ⟨?_, made_unlinkIf made ok .newTrans, ?_⟩
    · exact place.congr rfl rfl rfl (by simp) (names_unlinkIf _ ok (by decide))
        (fun _ => names_unlinkIf _ ok (by decide))
    · unfold Directory.unlinkIf
      split <;> exact dbMade
  | openNew =>
    simp only [at'] at taken place
    split at taken
    · obtain ⟨created, creates, rfl⟩ := map_eq_some_iff.1 taken
      obtain ⟨_, rfl⟩ := create_eq creates
      have fresh : server.directory.nextFile ≠ server.dbFd := by omega
      refine ⟨⟨?_, by simp, fresh⟩, ?_, Nat.lt_succ_of_lt dbMade⟩
      · exact place.congr rfl rfl rfl (update_of_ne fresh.symm _ _) (by simp) (by simp)
      · intro name file
        by_cases same : name = .newTrans
        · subst same
          rintro ⟨⟩
          exact Nat.lt_succ_self _
        · simp only [update_of_ne same]
          exact fun named => Nat.lt_succ_of_lt (made name file named)
    · cases taken
      exact ⟨place.goTo .serving, made, dbMade⟩
  | writeState fd =>
    simp only [at'] at taken place
    obtain ⟨live, named, apart⟩ := place
    split at taken
    · cases taken
      refine ⟨⟨?_, named, apart, ?_⟩, made, dbMade⟩
      · exact live.congr rfl rfl rfl (update_of_ne apart.symm _ _) rfl (fun _ => rfl)
      · intro transaction member
        simp only [update_self]
        exact live.remembers transaction member
    · cases taken
      exact ⟨live.goTo .serving, made, dbMade⟩
  | setFlags fd =>
    simp only [at'] at taken place
    cases taken
    cases ok with
    | true => exact ⟨⟨place.1.goTo (.unlinkOld fd), place.2⟩, made, dbMade⟩
    | false => exact ⟨place.1.goTo .serving, made, dbMade⟩
  | unlinkOld fd =>
    simp only [at'] at taken place
    cases taken
    obtain ⟨live, named, apart, holds⟩ := place
    have made' := made_unlinkIf made ok .oldTrans
    cases ok with
    | false => exact ⟨⟨live.goTo (.linkOld fd), named, apart, holds⟩, made, dbMade⟩
    | true =>
      -- the live name is there, so the old one is not needed
      have there := kept fd at' rfl
      refine ⟨⟨?_, ?_, apart, ?_⟩, made', dbMade⟩
      · exact live.congr rfl rfl rfl rfl (names_unlinkIf _ true (by decide))
          (fun gone => absurd gone there)
      · exact (names_unlinkIf _ true (by decide)).trans named
      · exact holds
  | linkOld fd =>
    simp only [at'] at taken place
    obtain ⟨live, named, apart, holds⟩ := place
    split at taken
    · obtain ⟨linked, links, rfl⟩ := map_eq_some_iff.1 taken
      obtain ⟨file, trans, _, rfl⟩ := link_eq links
      have same : file = server.dbFd := by
        rcases live.named with here | ⟨gone, _⟩
        · rw [trans] at here
          exact some.inj here
        · rw [trans] at gone
          cases gone
      subst same
      refine ⟨⟨?_, ?_, holds, ?_, by simp⟩, made_link made trans, dbMade⟩
      · exact live.congr rfl rfl rfl rfl (by simp) (fun gone => by rw [trans] at gone; cases gone)
      · simpa using named
      · simpa using trans
    · cases taken
      exact ⟨live.goTo .serving, made, dbMade⟩
  | unlinkTrans fd =>
    simp only [at'] at taken place
    cases taken
    obtain ⟨live, named, holds, trans, old⟩ := place
    have made' := made_unlinkIf made ok .trans
    have newName : (server.directory.unlinkIf ok .trans).names .newTrans = some fd :=
      (names_unlinkIf _ ok (by decide)).trans named
    have oldName : (server.directory.unlinkIf ok .trans).names .oldTrans = some server.dbFd :=
      (names_unlinkIf _ ok (by decide)).trans old
    have liveStill : Server.Live
        { server with
          directory := server.directory.unlinkIf ok .trans
          place := .linkNew fd } := by
      refine ⟨?_, live.remembers, ?_⟩
      · intro transaction member
        simpa using live.holds transaction member
      · cases ok with
        | false => exact .inl trans
        | true => exact .inr ⟨by simp [Directory.unlinkIf, Directory.unlink], oldName⟩
    refine ⟨⟨liveStill, newName, ?_, oldName⟩, made', ?_⟩
    · intro transaction member
      simpa using holds transaction member
    · unfold Directory.unlinkIf
      split <;> exact dbMade
  | linkNew fd =>
    simp only [at'] at taken place
    obtain ⟨live, named, holds, old⟩ := place
    split at taken
    · obtain ⟨linked, links, rfl⟩ := map_eq_some_iff.1 taken
      obtain ⟨file, new, _, rfl⟩ := link_eq links
      obtain rfl : fd = file := by
        rw [named] at new
        exact some.inj new
      refine ⟨⟨by simp, holds, live.remembers⟩, made_link made named, dbMade⟩
    · cases taken
      exact ⟨live.goTo .serving, made, dbMade⟩
  | unlinkNewLast fd =>
    simp only [at'] at taken place
    cases taken
    obtain ⟨trans, holds, remembers⟩ := place
    refine ⟨⟨?_, ?_, remembers⟩, made_unlinkIf made ok .newTrans, ?_⟩
    · exact (names_unlinkIf _ ok (by decide)).trans trans
    · intro transaction member
      simpa using holds transaction member
    · unfold Directory.unlinkIf
      split <;> exact dbMade
  | unlinkOldLast fd =>
    simp only [at'] at taken place
    cases taken
    obtain ⟨trans, holds, remembers⟩ := place
    have named : (server.directory.unlinkIf ok .oldTrans).names .trans = some fd :=
      (names_unlinkIf _ ok (by decide)).trans trans
    refine ⟨⟨?_, remembers, .inl named⟩, made_unlinkIf made ok .oldTrans,
      made_unlinkIf made ok .oldTrans _ _ named⟩
    intro transaction member
    simpa using holds transaction member
  | initLink file =>
    simp only [at'] at taken place
    obtain ⟨gone, old, holds⟩ := place
    split at taken
    · obtain ⟨linked, links, rfl⟩ := map_eq_some_iff.1 taken
      obtain ⟨same, named, _, rfl⟩ := link_eq links
      obtain rfl : file = same := by
        rw [old] at named
        exact some.inj named
      exact ⟨⟨by simp, holds⟩, made_link made old, dbMade⟩
    · cases taken
      exact ⟨⟨file, by simp [Server.goTo, gone, old], holds⟩, made, dbMade⟩
  | initUnlink file =>
    simp only [at'] at taken place
    cases taken
    obtain ⟨trans, holds⟩ := place
    have named : (server.directory.unlinkIf ok .oldTrans).names .trans = some file :=
      (names_unlinkIf _ ok (by decide)).trans trans
    refine ⟨⟨?_, ?_, .inl named⟩, made_unlinkIf made ok .oldTrans,
      made_unlinkIf made ok .oldTrans _ _ named⟩
    · intro transaction member
      simpa [Server.serve] using holds transaction member
    · intro transaction member
      simpa [Server.serve] using holds transaction member

theorem Server.Invariant.serve
    (made : ∀ name file, server.directory.names name = some file → file < server.directory.nextFile)
    (trans : server.directory.names .trans = some file) (holds : server.HoldsAll file) :
    (server.serve file).Invariant :=
  ⟨⟨holds, holds, .inl trans⟩, made, made .trans file trans⟩

/-- **Every step keeps the invariant**, unless it removes the only name of the
live file. -/
theorem Server.Invariant.step {server after : Server Transaction} {event : Event Transaction}
    (invariant : server.Invariant) (kept : liveNameKept server event)
    (taken : server.step event after) : after.Invariant := by
  have recoverable := invariant.recoverable
  unfold Server.step Server.step? at taken
  cases event with
  | record transaction =>
    simp only at taken
    obtain ⟨serving, ⟨⟩⟩ := ite_none_right_eq_some.1 taken
    obtain ⟨place, made, dbMade⟩ := invariant
    simp only [Server.PlaceInvariant, serving] at place
    refine ⟨?_, made, dbMade⟩
    simp only [Server.PlaceInvariant, serving]
    refine ⟨?_, ?_, place.named⟩
    · intro other member
      simp only [update_self, List.mem_append] at member ⊢
      exact member.imp_left (place.holds other)
    · intro other member
      simp only [List.mem_append] at member ⊢
      exact member.imp_left (place.remembers other)
  | compress =>
    simp only at taken
    obtain ⟨serving, ⟨⟩⟩ := ite_none_right_eq_some.1 taken
    obtain ⟨place, made, dbMade⟩ := invariant
    simp only [Server.PlaceInvariant, serving] at place
    exact ⟨place.goTo .unlinkNew, made, dbMade⟩
  | returns ok => exact invariant.returns kept taken
  | crash =>
    simp only at taken
    obtain ⟨-, ⟨⟩⟩ := ite_none_left_eq_some.1 taken
    exact ⟨recoverable, invariant.made, invariant.dbMade⟩
  | restart =>
    simp only at taken
    obtain ⟨down, taken⟩ := ite_none_right_eq_some.1 taken
    obtain ⟨file, chosen, holds⟩ := recoverable
    split at taken
    case h_1 live trans =>
      cases taken
      rw [trans] at chosen
      cases chosen
      exact Server.Invariant.serve invariant.made trans holds
    case h_2 old gone named =>
      cases taken
      rw [gone, named] at chosen
      cases chosen
      exact ⟨⟨gone, named, holds⟩, invariant.made, invariant.dbMade⟩
    case h_3 gone none' =>
      rw [gone, none'] at chosen
      cases chosen

theorem invariant_start : (Server.start : Server Transaction).Invariant := by
  refine ⟨⟨?_, ?_, .inl rfl⟩, ?_, Nat.one_pos⟩
  · intro transaction member
    cases member
  · intro transaction member
    cases member
  · intro name file named
    simp only [Server.start] at named
    split at named
    · cases named
      exact Nat.one_pos
    · cases named

theorem liveNameKept_of_recoverable {event : Event Transaction} (taken : server.step event after)
    (recoverable : after.Recoverable) : liveNameKept server event := by
  rintro fd place rfl gone
  unfold Server.step Server.step? Server.returns? at taken
  simp only [place] at taken
  cases taken
  obtain ⟨file, chosen, _⟩ := recoverable
  simp [Directory.unlinkIf, Directory.unlink, gone] at chosen

/-- **The switch is safe exactly while the live name is kept**: in a run that
removes the old name only while the live name is there, everything acknowledged
can be recovered between any two system calls, and is remembered by a server
that serves; and a next step leaves it so if and only if it does not remove the
old name without the live name. -/
theorem recoverable_iff_liveNameKept {events : List (Event Transaction)}
    {server : Server Transaction}
    (run : Run (Guarded Server.step liveNameKept) Server.start events server) :
    server.Recoverable ∧ server.Remembers ∧ ∀ event after, server.step event after →
      (after.Recoverable ↔ liveNameKept server event) := by
  have invariant : server.Invariant := run.invariant
      (fun _ _ _ before taken => before.step taken.2 taken.1) invariant_start
  refine ⟨invariant.recoverable, invariant.remembers, ?_⟩
  intro event after taken
  exact ⟨liveNameKept_of_recoverable taken, fun kept => (invariant.step kept taken).recoverable⟩

theorem recoverable_iff_liveNameKept_crash : ∃ server : Server Nat,
    Run (Guarded Server.step liveNameKept) Server.start [.record 7, .crash, .restart] server ∧
      server.memory = [7] ∧ server.Recoverable ∧ server.Remembers := by
  have run : Run (Guarded Server.step liveNameKept) (Server.start : Server Nat)
      ([] ++ [.record 7] ++ [.crash] ++ [.restart]) _ :=
    Run.snoc (Run.snoc (Run.snoc .nil ⟨rfl, fun _ _ other => by cases other⟩)
      ⟨rfl, fun _ _ other => by cases other⟩)
      ⟨rfl, fun _ _ other => by cases other⟩
  obtain ⟨recoverable, remembers, _⟩ := recoverable_iff_liveNameKept run
  exact ⟨_, run, rfl, recoverable, remembers⟩

/-- Two attempts, the first of which cannot link the new file to the live name:
the second one removes the only name of the file that is written. -/
def failedSwitch : List (Event Nat) :=
  [.record 7, .compress, .returns true, .returns true, .returns true,
    .returns true, .returns true, .returns true, .returns true,
    .returns false, .compress, .returns true, .returns true, .returns true,
    .returns true, .returns true]

theorem recoverable_fails : ∃ server : Server Nat,
    Run Server.step Server.start failedSwitch server ∧ server.acknowledged = [7] ∧
      server.directory.names .trans = none ∧
      server.directory.names .oldTrans = none ∧ ¬server.Recoverable := by
  obtain ⟨server, accepted, acknowledged, trans, old⟩ : ∃ server : Server Nat,
    run? Server.step? Server.start failedSwitch = some server ∧ server.acknowledged = [7] ∧
      server.directory.names .trans = none ∧ server.directory.names .oldTrans = none :=
    ⟨_, rfl, rfl, rfl, rfl⟩
  refine ⟨server, Run.of_run? accepted, acknowledged, trans, old, ?_⟩
  rintro ⟨file, chosen, _⟩
  rw [trans, old] at chosen
  cases chosen

end Uw7.Aas
