import Nct.Breakargs

/-! The names that `nct_mount` finds in its argument, `[user@]host[:/export...]`.
It copies the argument and cuts the copy in place. -/
namespace Nct

/-- `mnt_args`, and where `mnt_server`, `mnt_user` and `mnt_path` point into it.
The last two may also be left with what they were set to before. -/
structure MountNames where
  mntArgs : List Char
  mntServer : Nat
  mntUser : Option Nat
  mntPath : Option Nat
  deriving DecidableEq

/-- `strchr` of the string at an offset, for a character other than NUL. -/
def strchr (area : List Char) (off : Nat) (c : Char) : Option Nat :=
  ((stringAt area off).idxOf? c).map (off + ·)

namespace MountNames

def start (path : CString) : MountNames := ⟨path ++ [NUL], 0, none, none⟩

/-- What comes before the first `@` is the user. -/
def cutUser (m : MountNames) : MountNames :=
  match strchr m.mntArgs 0 '@' with
  | none => m
  | some pc => { m with mntUser := some 0, mntArgs := m.mntArgs.set pc NUL, mntServer := pc + 1 }

/-- What comes after the first `:` of the server is the path. -/
def cutPath (m : MountNames) : MountNames :=
  match strchr m.mntArgs m.mntServer ':' with
  | none => m
  | some pc => { m with mntArgs := m.mntArgs.set pc NUL, mntPath := some (pc + 1) }

def server (m : MountNames) : CString := stringAt m.mntArgs m.mntServer

def user (m : MountNames) : CString := m.mntUser.elim ['r', 'o', 'o', 't'] (stringAt m.mntArgs)

def path (m : MountNames) : CString := m.mntPath.elim ['/'] (stringAt m.mntArgs)

end MountNames

/-- `nct_mount` up to its check of the host name. -/
def mountNames (path : CString) : Option MountNames :=
  let m := (MountNames.start path).cutUser.cutPath
  if m.server.head?.any fun c => c.isAlpha || c.isDigit then some m else none

/-- A mount argument with its parts. -/
structure Remote where
  user : Option CString
  host : CString
  path : Option CString

def Remote.written (r : Remote) : CString :=
  r.user.elim [] (· ++ ['@']) ++ (r.host ++ r.path.elim [] (':' :: ·))

/-- A part of the argument before the path. -/
def PlainName (name : CString) : Prop := '@' ∉ name ∧ ':' ∉ name ∧ NUL ∉ name

/-- The host is a name that `nct_mount` takes for one. -/
structure Remote.Proper (r : Remote) : Prop where
  user : ∀ u ∈ r.user, PlainName u
  host : PlainName r.host
  first : ∃ c rest, r.host = c :: rest ∧ (c.isAlpha ∨ c.isDigit)
  path : ∀ p ∈ r.path, NUL ∉ p

/-- The parts are found, and the defaults where there is none. -/
def Remote.Recovered (r : Remote) : Prop :=
  ∃ m, mountNames r.written = some m ∧ m.server = r.host ∧
    m.user = r.user.getD ['r', 'o', 'o', 't'] ∧ m.path = r.path.getD ['/']

section
variable {before name after : List Char} {c : Char}

theorem stringAt_append (before : List Char) (hNul : NUL ∉ name) :
    stringAt (before ++ (name ++ NUL :: after)) before.length = name := by
  rw [stringAt, List.drop_left, List.takeWhile_append_of_pos]
  · simp
  · intro x hx
    simpa using ne_of_mem_of_not_mem hx hNul

theorem strchr_eq_some (hNul : NUL ∉ name) (hName : c ∉ name) (hc : c ≠ NUL) :
    strchr (before ++ (name ++ c :: after)) before.length c = some (before.length + name.length) := by
  have hString : stringAt (before ++ (name ++ c :: after)) before.length =
      name ++ c :: after.takeWhile (· != NUL) := by
    rw [stringAt, List.drop_left, List.takeWhile_append_of_pos]
    · simp [hc]
    · intro x hx
      simpa using ne_of_mem_of_not_mem hx hNul
  have hIdx : (name ++ c :: after.takeWhile (· != NUL)).idxOf? c = some name.length := by
    rw [List.idxOf?, List.findIdx?_append]
    have hNone : name.findIdx? (· == c) = none := by
      rw [List.findIdx?_eq_none_iff]
      intro x hx
      simpa using ne_of_mem_of_not_mem hx hName
    simp [hNone, List.findIdx?_cons]
  rw [strchr, hString, hIdx, Option.map_some]

theorem strchr_eq_none (hNul : NUL ∉ name) (hName : c ∉ name) :
    strchr (before ++ (name ++ NUL :: after)) before.length c = none := by
  rw [strchr, stringAt_append _ hNul, List.idxOf?, Option.map_eq_none_iff, List.findIdx?_eq_none_iff]
  intro x hx
  simpa using ne_of_mem_of_not_mem hx hName

theorem set_append_cons : (before ++ (name ++ c :: after)).set (before.length + name.length) NUL =
    before ++ (name ++ NUL :: after) := by
  rw [← List.append_assoc, ← List.length_append, List.set_append_right _ _ le_rfl, Nat.sub_self,
    List.set_cons_zero, List.append_assoc]

end

namespace MountNames

variable {u host : List Char} {path : Option CString}

/-- Nothing before the server is changed. -/
theorem cutPath_user (m : MountNames) (before : List Char) (hBefore : ∃ after, m.mntArgs = before ++ after)
    (hServer : m.mntServer = before.length) :
    m.cutPath.mntUser = m.mntUser ∧ ∃ after, m.cutPath.mntArgs = before ++ after := by
  obtain ⟨after, hArgs⟩ := hBefore
  unfold cutPath
  split
  · exact ⟨rfl, after, hArgs⟩
  · next pc hSearch =>
      obtain ⟨i, -, rfl⟩ := Option.map_eq_some_iff.mp hSearch
      refine ⟨rfl, after.set i NUL, ?_⟩
      simp only [hArgs, hServer]
      rw [List.set_append_right _ _ (Nat.le_add_right _ _), Nat.add_sub_cancel_left]

/-- The path is cut off the host. -/
theorem cutPath_parts (m : MountNames) (before : List Char) (hHost : PlainName host) (hPath : ∀ p ∈ path, NUL ∉ p)
    (hArgs : m.mntArgs = before ++ (host ++ (path.elim [] (':' :: ·) ++ [NUL])))
    (hServer : m.mntServer = before.length) (hNone : m.mntPath = none) :
    m.cutPath.server = host ∧ m.cutPath.path = path.getD ['/'] := by
  obtain ⟨-, hColon, hNul⟩ := hHost
  cases path with
  | none =>
      have hSearch : strchr m.mntArgs m.mntServer ':' = none := by
        rw [hArgs, hServer]
        exact strchr_eq_none hNul hColon
      have hCut : m.cutPath = m := by rw [cutPath, hSearch]
      rw [hCut]
      refine ⟨?_, by rw [MountNames.path, hNone]; rfl⟩
      rw [server, hArgs, hServer]
      exact stringAt_append _ hNul
  | some p =>
      have hSearch : strchr m.mntArgs m.mntServer ':' = some (before.length + host.length) := by
        rw [hArgs, hServer]
        exact strchr_eq_some hNul hColon (by decide)
      have hSet : m.mntArgs.set (before.length + host.length) NUL =
          before ++ (host ++ NUL :: (p ++ [NUL])) := by
        rw [hArgs]
        exact set_append_cons
      have hCut : m.cutPath = { m with
          mntArgs := before ++ (host ++ NUL :: (p ++ [NUL]))
          mntPath := some (before.length + host.length + 1) } := by
        rw [cutPath, hSearch, ← hSet]
      rw [hCut]
      constructor
      · rw [server, hServer]
        exact stringAt_append _ hNul
      · have hAfter : before ++ (host ++ NUL :: (p ++ [NUL])) =
            (before ++ (host ++ [NUL])) ++ (p ++ NUL :: []) := by simp
        have hLength : before.length + host.length + 1 = (before ++ (host ++ [NUL])).length := by
          simp [Nat.add_assoc]
        simp only [MountNames.path, Option.elim_some, Option.getD_some]
        rw [hAfter, hLength]
        exact stringAt_append _ (hPath p rfl)

/-- The argument is cut at its first `@`. -/
theorem cutUser_append (hAt : '@' ∉ u) (hNul : NUL ∉ u) (rest : List Char) :
    cutUser ⟨u ++ '@' :: rest, 0, none, none⟩ = ⟨(u ++ [NUL]) ++ rest, u.length + 1, some 0, none⟩ := by
  have hSearch : strchr ([] ++ (u ++ '@' :: rest)) ([] : List Char).length '@' =
      some (0 + u.length) := strchr_eq_some hNul hAt (by decide)
  have hSet : ([] ++ (u ++ '@' :: rest)).set (0 + u.length) NUL = [] ++ (u ++ NUL :: rest) :=
    set_append_cons
  simp only [List.nil_append, List.length_nil, Nat.zero_add] at hSearch hSet
  simp only [cutUser, hSearch, hSet, List.append_assoc, List.singleton_append]

theorem cutUser_none (hAt : '@' ∉ u) (hNul : NUL ∉ u) : (start u).cutUser = start u := by
  have hSearch : strchr ([] ++ (u ++ NUL :: [])) ([] : List Char).length '@' = none :=
    strchr_eq_none hNul hAt
  simp only [List.nil_append, List.length_nil] at hSearch
  simp only [start, cutUser, hSearch]

/-- The user is what comes before the first `@`, also once the path is cut off. -/
theorem user_append (hAt : '@' ∉ u) (hNul : NUL ∉ u) (rest : CString) :
    (start (u ++ '@' :: rest)).cutUser.cutPath.user = u := by
  have hStart : start (u ++ '@' :: rest) = ⟨u ++ '@' :: (rest ++ [NUL]), 0, none, none⟩ := by
    simp [start]
  rw [hStart, cutUser_append hAt hNul]
  obtain ⟨hUser, after, hArgs⟩ := cutPath_user
    ⟨(u ++ [NUL]) ++ (rest ++ [NUL]), u.length + 1, some 0, none⟩ (u ++ [NUL]) ⟨_, rfl⟩ (by simp)
  rw [user, hUser, Option.elim_some, hArgs, List.append_assoc]
  exact stringAt_append [] hNul

end MountNames

/-- The host of a proper argument passes the check. -/
theorem mountNames_eq {path : CString} {r : Remote} (h : r.Proper)
    (hServer : ((MountNames.start path).cutUser.cutPath).server = r.host) :
    mountNames path = some (MountNames.start path).cutUser.cutPath := by
  obtain ⟨c, rest, hHost, hFirst⟩ := h.first
  simp only [mountNames, hServer, hHost, List.head?_cons, Option.any_some]
  rw [if_pos]
  simpa using hFirst

theorem Remote.Proper.recovered_user {r : Remote} (h : r.Proper) {u : CString} (hUser : r.user = some u) :
    r.Recovered := by
  obtain ⟨hAt, -, hNul⟩ := h.user u hUser
  have hWritten : r.written = u ++ '@' :: (r.host ++ r.path.elim [] (':' :: ·)) := by
    simp [Remote.written, hUser]
  have hStart : MountNames.start r.written =
      ⟨u ++ '@' :: (r.host ++ (r.path.elim [] (':' :: ·) ++ [NUL])), 0, none, none⟩ := by
    simp [MountNames.start, hWritten]
  have hCut := MountNames.cutUser_append hAt hNul (r.host ++ (r.path.elim [] (':' :: ·) ++ [NUL]))
  rw [← hStart] at hCut
  obtain ⟨hServer, hPath⟩ := MountNames.cutPath_parts (MountNames.start r.written).cutUser
    (u ++ [NUL]) h.host h.path (by rw [hCut]) (by rw [hCut]; simp) (by rw [hCut])
  refine ⟨_, mountNames_eq h hServer, hServer, ?_, hPath⟩
  rw [hUser, hWritten]
  exact MountNames.user_append hAt hNul _

theorem Remote.Proper.recovered_default {r : Remote} (h : r.Proper) (hUser : r.user = none)
    (hPath : ∀ p ∈ r.path, '@' ∉ p) : r.Recovered := by
  have hPlain : '@' ∉ r.written ∧ NUL ∉ r.written := by
    obtain ⟨hAt, -, hNul⟩ := h.host
    cases hCase : r.path with
    | none => simp [Remote.written, hUser, hCase, hAt, hNul]
    | some p =>
        have hColon : NUL ≠ ':' := by decide
        simp [Remote.written, hUser, hCase, hAt, hNul, hPath p hCase, h.path p hCase, hColon]
  have hCut := MountNames.cutUser_none hPlain.1 hPlain.2
  obtain ⟨hServer, hFound⟩ := MountNames.cutPath_parts (MountNames.start r.written).cutUser
    [] h.host h.path (by rw [hCut]; simp [MountNames.start, Remote.written, hUser])
    (by rw [hCut]; rfl) (by rw [hCut]; rfl)
  have hKept := (MountNames.cutPath_user (MountNames.start r.written).cutUser [] ⟨_, rfl⟩ (by rw [hCut]; rfl)).1
  refine ⟨_, mountNames_eq h hServer, hServer, ?_, hFound⟩
  rw [MountNames.user, hKept, hCut, hUser]
  rfl

/-- Without a user, an `@` in the path ends what is taken for one. -/
theorem Remote.Proper.not_recovered {r : Remote} (h : r.Proper) (hUser : r.user = none) {p : CString}
    (hPath : r.path = some p) (hAt : '@' ∈ p) : ¬ r.Recovered := by
  obtain ⟨before, after, rfl, hBefore⟩ := List.eq_append_cons_of_mem hAt
  have hWritten : r.written = (r.host ++ ':' :: before) ++ '@' :: after := by
    simp [Remote.written, hUser, hPath]
  have hNul : NUL ∉ r.host ++ ':' :: before := by
    have hColon : NUL ≠ ':' := by decide
    have hPathNul := h.path _ hPath
    rw [List.mem_append, not_or] at hPathNul
    simp [h.host.2.2, hColon, hPathNul.1]
  have hFound := MountNames.user_append (u := r.host ++ ':' :: before)
    (by simp [h.host.1, hBefore]) hNul after
  rintro ⟨m, hNames, -, hDefault, -⟩
  simp only [mountNames, hWritten] at hNames
  split at hNames
  · obtain rfl := Option.some.inj hNames
    rw [hFound, hUser] at hDefault
    have hColon : ':' ∈ (['r', 'o', 'o', 't'] : CString) := by
      rw [← Option.getD_none (a := ['r', 'o', 'o', 't']), ← hDefault]
      simp
    exact absurd hColon (by decide)
  · cases hNames

/-- The parts of a mount argument are recovered just if there is a user or no `@`
in the path. -/
theorem mount_recovers_iff (r : Remote) (h : r.Proper) :
    r.Recovered ↔ r.user.isSome ∨ ∀ p ∈ r.path, '@' ∉ p := by
  constructor
  · intro hRecovered
    cases hUser : r.user with
    | some u => exact Or.inl rfl
    | none => exact Or.inr fun p hPath hAt => h.not_recovered hUser hPath hAt hRecovered
  · intro hEither
    cases hUser : r.user with
    | some u => exact h.recovered_user hUser
    | none =>
        have hPath := hEither.resolve_left (by simp [hUser])
        exact h.recovered_default hUser hPath

/-- `me@nfs:/a@b` -/
def userRemote : Remote := ⟨some ['m', 'e'], ['n', 'f', 's'], some ['/', 'a', '@', 'b']⟩

theorem mount_recovers_iff_user : userRemote.Recovered := by
  have hProper : userRemote.Proper :=
    { user := by simp [userRemote, PlainName, NUL]
      host := by simp [userRemote, PlainName, NUL]
      first := ⟨'n', ['f', 's'], rfl, by decide⟩
      path := by simp [userRemote, NUL] }
  exact (mount_recovers_iff userRemote hProper).mpr (Or.inl rfl)

/-- Of `nfs:/a@b`, `b` is taken for the host. -/
theorem mount_atPath : ¬ ∀ r : Remote, r.Proper → r.Recovered := by
  intro h
  have hProper : Remote.Proper ⟨none, ['n', 'f', 's'], some ['/', 'a', '@', 'b']⟩ :=
    { user := by simp
      host := by simp [PlainName, NUL]
      first := ⟨'n', ['f', 's'], rfl, by decide⟩
      path := by simp [NUL] }
  obtain ⟨m, hNames, hServer, -⟩ := h _ hProper
  have hFound : (mountNames ['n', 'f', 's', ':', '/', 'a', '@', 'b']).map MountNames.server =
      some ['b'] := by decide
  replace hNames : mountNames ['n', 'f', 's', ':', '/', 'a', '@', 'b'] = some m := hNames
  rw [hNames, Option.map_some, hServer] at hFound
  exact absurd hFound (by decide)

end Nct
