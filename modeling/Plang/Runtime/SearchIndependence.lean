import Plang.Runtime.DirectorySearch
import Mathlib.Data.List.TakeWhile

/-!
# Searches do not disturb each other

A search should give the entries of its directory that match, one by one, and then the error 18.
Each record sees just that, whatever is called with the others, as long as its paths fit the record.
A longer path is cut off in the record but not for the directory that is opened.
-/

namespace Plang

namespace Runtime

open Interleaving

/-- The directory of a search path. -/
def directoryPart (path : Text) : Text :=
  match strrchr path '/' with
  | some slash => path.take (slash + 1)
  | none => "./".toList

/-- The pattern of a search path. -/
def patternPart (path : Text) : Text :=
  match strrchr path '/' with
  | some slash => path.drop (slash + 1)
  | none => path

/-- The attributes that a search finds. -/
def searchMask (attr : UInt16) : UInt16 := attr ||| FaArchive ||| FaReadOnly

namespace FileSystem

variable (system : FileSystem)

/-- A search finds the entry. -/
def finds (path : Text) (attr : UInt16) (name : Text) : Bool :=
  let fullPath := directoryPart path ++ name
  system.fnmatch (patternPart path) name &&
    (system.stat fullPath).any fun st =>
      attrMatches (system.fileAttr fullPath name st) (searchMask attr)

/-- One step of a search that still has these entries to give. -/
def give : List Text → SearchAnswer × List Text
  | [] => (.error 18, [])
  | name :: names => (.found name, names)

/-- One record by itself: the entries that its search still has to give. -/
def search : SearchCall → List Text → SearchAnswer × List Text
  | .FindFirst path attr, _ =>
      if cString path = [] then (.error 3, [])
      else
        match system.opendir (directoryPart (cString path)) with
        | none => (.error 3, [])
        | some names => give (names.filter (system.finds (cString path) attr))
  | .FindNext, names => give names
  | .FindClose, _ => (.closed, [])

/-- A search gives its entries in order, each of them once, and then the error. -/
theorem runAlone_findNext (names : List Text) (calls : Nat) :
    runAlone system.search names (List.replicate calls .FindNext) =
      (names.map SearchAnswer.found ++ List.replicate calls (SearchAnswer.error 18)).take calls := by
  induction calls generalizing names with
  | zero => rfl
  | succ calls induction =>
      rw [List.replicate_succ, runAlone]
      cases names with
      | nil =>
          have still := induction []
          simp only [List.map_nil, List.nil_append, List.take_replicate, Nat.min_self] at still ⊢
          exact congrArg _ still
      | cons name names =>
          rw [List.map_cons, List.cons_append, List.take_succ_cons]
          refine congrArg _ ((induction names).trans ?_)
          rw [List.replicate_succ', ← List.append_assoc]
          exact (List.take_append_of_le_length (by simp)).symm

end FileSystem

/-! ### One search -/

theorem lt_of_strrchr {text : Text} {c : Char} {place : Nat} (found : strrchr text c = some place) :
    place < text.length := by
  obtain ⟨behind, behind_eq, rfl⟩ := Option.map_eq_some_iff.mp found
  obtain ⟨inside, -⟩ := List.idxOf?_eq_some_iff.mp behind_eq
  rw [List.length_reverse] at inside
  omega

/-- A path that fits the buffer is split as it should be. -/
theorem splitDirAndPattern_eq {path : Text} {dirCap : Nat} (room : path.length < dirCap)
    (two : 2 < dirCap) :
    splitDirAndPattern path dirCap = (directoryPart path, patternPart path) := by
  rw [splitDirAndPattern, directoryPart, patternPart]
  cases found : strrchr path '/' with
  | none =>
      have whole : "./".toList.length ≤ dirCap - 1 := Nat.le_sub_one_of_lt two
      simp only [List.take_of_length_le whole]
  | some slash =>
      have inside : ¬slash + 1 ≥ dirCap := by
        have := lt_of_strrchr found
        omega
      simp only [if_neg inside]

theorem length_directoryPart_le (path : Text) : (directoryPart path).length ≤ path.length + 2 := by
  rw [directoryPart]
  split
  · rw [List.length_take]
    omega
  · exact Nat.le_add_left _ _

namespace FileSystem

variable (system : FileSystem)

/-- The attributes fit the byte of the record. -/
theorem fileAttr_narrow (fullPath nameOnly : Text) (st : FileStatus) :
    (system.fileAttr fullPath nameOnly st).toUInt8.toUInt16 =
      system.fileAttr fullPath nameOnly st := by
  have narrow : ∀ isDirectory isHidden isWritable : Bool,
      ((if isDirectory then FaDirectory else 0) ||| (if isHidden then FaHidden else 0) |||
          if isWritable then 0 else FaReadOnly).toUInt8.toUInt16 =
        (if isDirectory then FaDirectory else 0) ||| (if isHidden then FaHidden else 0) |||
          if isWritable then 0 else FaReadOnly := by decide
  have instance_eq := narrow st.isDirectory (nameOnly.head? = some '.') (system.writable fullPath)
  simpa only [fileAttr, decide_eq_true_eq] using instance_eq

variable {system} {path : Text} {attr : UInt16} {record : PlangDosSearchRec} {entries : List Text}

theorem statInto_keeps {fullPath nameOnly : Text} {other : PlangDosSearchRec}
    (known : system.statInto fullPath nameOnly record = some other) :
    other.dirHandle = record.dirHandle ∧ other.pathPrefix = record.pathPrefix ∧
      other.searchAttr = record.searchAttr := by
  obtain ⟨st, -, rfl⟩ := Option.map_eq_some_iff.mp known
  exact ⟨rfl, rfl, rfl⟩

/-- The loop writes only what is known of a file. -/
theorem nextEntry_keeps (dirBuf pattern : Text) (record : PlangDosSearchRec)
    (entries : List Text) :
    (system.nextEntry dirBuf pattern record entries).1.dirHandle = record.dirHandle ∧
      (system.nextEntry dirBuf pattern record entries).1.pathPrefix = record.pathPrefix ∧
      (system.nextEntry dirBuf pattern record entries).1.searchAttr = record.searchAttr := by
  induction entries generalizing record with
  | nil => exact ⟨rfl, rfl, rfl⟩
  | cons de entries induction =>
      rw [nextEntry]
      split
      · split
        · rename_i other known
          have kept := statInto_keeps known
          split
          · exact kept
          · rw [← kept.1, ← kept.2.1, ← kept.2.2]
            exact induction other
        · exact induction record
      · exact induction record

/-- What a loop comes to is the first entry that the search finds. -/
def Gives (system : FileSystem) (path : Text) (attr : UInt16) (entries : List Text)
    (result : PlangDosSearchRec × List Text × Bool) : Prop :=
  give (entries.filter (system.finds path attr)) =
      (if result.2.2 then .found result.1.name.data else .error 18,
        result.2.1.filter (system.finds path attr)) ∧
    result.2.1 <:+ entries

/-- An entry that is not found makes no difference. -/
theorem Gives.cons {result : PlangDosSearchRec × List Text × Bool}
    (gives : system.Gives path attr entries result) {name : Text}
    (missed : system.finds path attr name = false) :
    system.Gives path attr (name :: entries) result := by
  rw [Gives, List.filter_cons_of_neg (by simp [missed])]
  exact ⟨gives.1, gives.2.trans (List.suffix_cons name entries)⟩

theorem nextEntry_gives (mask : record.searchAttr = searchMask attr)
    (fits : ∀ name ∈ entries, name.length ≤ 255 ∧ (directoryPart path ++ name).length ≤ 1279) :
    system.Gives path attr entries
      (system.nextEntry (directoryPart path) (patternPart path) record entries) := by
  induction entries generalizing record with
  | nil => exact ⟨rfl, List.suffix_refl _⟩
  | cons de entries induction =>
      have others_fit := fun name member => fits name (List.mem_cons_of_mem de member)
      obtain ⟨name_fits, path_fits⟩ := fits de List.mem_cons_self
      have whole : (writeSStr 255 de).data = de := List.take_of_length_le name_fits
      rw [nextEntry, List.take_of_length_le path_fits]
      cases named : system.fnmatch (patternPart path) de with
      | false =>
          have missed : system.finds path attr de = false := by simp [finds, named]
          exact (induction mask others_fit).cons missed
      | true =>
          rw [if_pos rfl, statInto]
          cases known : system.stat (directoryPart path ++ de) with
          | none =>
              have missed : system.finds path attr de = false := by simp [finds, known]
              exact (induction mask others_fit).cons missed
          | some st =>
              have finds_eq : system.finds path attr de =
                  attrMatches (system.fileAttr (directoryPart path ++ de) de st)
                    (searchMask attr) := by
                rw [finds, named, known]
                rfl
              simp only [Option.map_some, fileAttr_narrow, mask]
              split
              · rename_i found
                rw [Gives, List.filter_cons_of_pos (finds_eq.trans found), give]
                refine ⟨?_, List.suffix_cons de entries⟩
                rw [if_pos rfl, whole]
              · rename_i other
                exact (induction rfl others_fit).cons (finds_eq.trans (by simpa using other))

end FileSystem

namespace DosUnit

variable {ι : Type*} [DecidableEq ι] {system : FileSystem} {dos : DosUnit ι} {f : ι}

/-! ### The streams that are open -/

/-- Each record has a stream of its own, and none is closed twice. -/
structure Sound (dos : DosUnit ι) : Prop where
  held : ∀ f d, (dos.records f).dirHandle = some d → d < dos.opened ∧ d ∉ dos.closed
  apart : ∀ f g d, (dos.records f).dirHandle = some d → (dos.records g).dirHandle = some d → f = g
  closed_lt : ∀ d ∈ dos.closed, d < dos.opened
  nodup : dos.closed.Nodup

/-- `FindNext` changes one record and the directory that it reads. -/
theorem plangDosFindnext_keeps (system : FileSystem) (f : ι) (dos : DosUnit ι) :
    (∀ g, ((dos.plangDosFindnext system f).records g).dirHandle = (dos.records g).dirHandle) ∧
      (∀ g, g ≠ f → (dos.plangDosFindnext system f).records g = dos.records g) ∧
      (∀ d, (dos.records f).dirHandle ≠ some d →
        (dos.plangDosFindnext system f).streams d = dos.streams d) ∧
      (dos.plangDosFindnext system f).opened = dos.opened ∧
      (dos.plangDosFindnext system f).closed = dos.closed := by
  rw [plangDosFindnext]
  cases held : (dos.records f).dirHandle with
  | none => exact ⟨fun _ => rfl, fun _ _ => rfl, fun _ _ => rfl, rfl, rfl⟩
  | some d =>
      have kept := (system.nextEntry_keeps
        (splitDirAndPattern (cstr (dos.records f).pathPrefix) 1024).1
        (splitDirAndPattern (cstr (dos.records f).pathPrefix) 1024).2 (dos.records f)
        ((dos.streams d).getD [])).1
      refine ⟨fun g => ?_, fun g ne => Function.update_of_ne ne _ _, fun other ne => ?_, rfl, rfl⟩
      · by_cases mine : g = f
        · subst mine
          exact (congrArg _ (Function.update_self _ _ _)).trans kept
        · exact congrArg _ (Function.update_of_ne mine _ _)
      · exact Function.update_of_ne (fun same => ne (by rw [same])) _ _

theorem Sound.findnext (sound : dos.Sound) (system : FileSystem) (f : ι) :
    (dos.plangDosFindnext system f).Sound := by
  obtain ⟨handles, -, -, opened, closed⟩ := plangDosFindnext_keeps system f dos
  refine ⟨fun g d => ?_, fun g h d => ?_, ?_, ?_⟩
  · rw [handles, opened, closed]
    exact sound.held g d
  · rw [handles, handles]
    exact sound.apart g h d
  · rw [opened, closed]
    exact sound.closed_lt
  · rw [closed]
    exact sound.nodup

/-- Behind a record that holds no stream any more, the others hold theirs. -/
theorem held_of_released {record : PlangDosSearchRec} (released : record.dirHandle = none) {g : ι}
    {d : Nat} (holds : (Function.update dos.records f record g).dirHandle = some d) :
    g ≠ f ∧ (dos.records g).dirHandle = some d := by
  by_cases mine : g = f
  · subst mine
    rw [Function.update_self, released] at holds
    cases holds
  · rw [Function.update_of_ne mine] at holds
    exact ⟨mine, holds⟩

/-- A record that lets go of its stream. -/
theorem Sound.refuse (sound : dos.Sound) {record : PlangDosSearchRec}
    (released : record.dirHandle = none) : (dos.refuse f record).Sound :=
  ⟨fun g d holds => sound.held g d (held_of_released released holds).2,
    fun g h d first second => sound.apart g h d (held_of_released released first).2
      (held_of_released released second).2,
    sound.closed_lt, sound.nodup⟩

/-- A record that is given a new stream. -/
theorem Sound.opens (sound : dos.Sound) (f : ι) (record : PlangDosSearchRec)
    (entries : List Text) : (dos.opens f record entries).Sound := by
  have held : ∀ g d, ((dos.opens f record entries).records g).dirHandle = some d →
      g = f ∧ d = dos.opened ∨
        (dos.records g).dirHandle = some d ∧ d < dos.opened ∧ d ∉ dos.closed := by
    intro g d holds
    by_cases mine : g = f
    · subst mine
      rw [opens_self] at holds
      exact .inl ⟨rfl, (Option.some.inj holds).symm⟩
    · rw [opens_of_ne record entries mine] at holds
      exact .inr ⟨holds, sound.held g d holds⟩
  refine ⟨fun g d holds => ?_, fun g h d first second => ?_,
    fun d member => Nat.lt_succ_of_lt (sound.closed_lt d member), sound.nodup⟩
  · obtain ⟨-, rfl⟩ | ⟨-, lt, fresh⟩ := held g d holds
    · exact ⟨Nat.lt_succ_self _, fun member => Nat.lt_irrefl _ (sound.closed_lt _ member)⟩
    · exact ⟨Nat.lt_succ_of_lt lt, fresh⟩
  · obtain ⟨rfl, rfl⟩ | ⟨first, lt, -⟩ := held g d first
    · obtain ⟨rfl, -⟩ | ⟨-, lt, -⟩ := held h _ second
      · rfl
      · exact absurd lt (Nat.lt_irrefl _)
    · obtain ⟨-, rfl⟩ | ⟨second, -⟩ := held h d second
      · exact absurd lt (Nat.lt_irrefl _)
      · exact sound.apart g h d first second

theorem Sound.findclose (sound : dos.Sound) (f : ι) : (dos.plangDosFindclose f).Sound := by
  rw [plangDosFindclose]
  cases held : (dos.records f).dirHandle with
  | none => exact sound
  | some d =>
      obtain ⟨lt, fresh⟩ := sound.held f d held
      have others : ∀ g other, (Function.update dos.records f
          { dos.records f with dirHandle := none } g).dirHandle = some other →
          g ≠ f ∧ (dos.records g).dirHandle = some other := fun g other => held_of_released rfl
      refine ⟨fun g other holds => ?_, fun g h other first second => ?_, fun other member => ?_,
        List.nodup_cons.mpr ⟨fresh, sound.nodup⟩⟩
      · obtain ⟨ne, still⟩ := others g other holds
        refine ⟨(sound.held g other still).1, fun member => ?_⟩
        obtain rfl | member := List.mem_cons.mp member
        · exact ne (sound.apart g f other still held)
        · exact (sound.held g other still).2 member
      · exact sound.apart g h other (others g other first).2 (others h other second).2
      · obtain rfl | member := List.mem_cons.mp member
        · exact lt
        · exact sound.closed_lt other member

theorem Sound.findfirst (sound : dos.Sound) (system : FileSystem) (f : ι) (path : Text)
    (attr : UInt16) : (dos.plangDosFindfirst system f path attr).Sound := by
  rw [plangDosFindfirst]
  split
  · exact sound.refuse rfl
  · dsimp only
    split
    · exact sound.refuse rfl
    · exact (sound.opens f _ _).findnext system f

theorem Sound.step (sound : dos.Sound) (system : FileSystem) (f : ι) (call : SearchCall) :
    (dos.step system f call).2.Sound := by
  cases call with
  | FindFirst path attr => exact sound.findfirst system f (cString path) attr
  | FindNext => exact sound.findnext system f
  | FindClose => exact sound.findclose f

/-! ### A record and what its search has to give -/

/-- The record is in a search that still has these entries to give. -/
structure Searching (system : FileSystem) (stream : Option (List Text))
    (record : PlangDosSearchRec) (names : List Text) : Prop where
  /-- The path, which the record holds whole. -/
  terminated : cString record.pathPrefix.data = record.pathPrefix.data
  remaining : ∃ attr entries, stream = some entries ∧ record.searchAttr = searchMask attr ∧
    (∀ name ∈ entries, name.length ≤ 255) ∧
    names = entries.filter (system.finds record.pathPrefix.data attr)

/-- The record is in such a search, or in none. -/
def Follows (system : FileSystem) (f : ι) (dos : DosUnit ι) (names : List Text) : Prop :=
  match (dos.records f).dirHandle with
  | none => names = []
  | some d => Searching system (dos.streams d) (dos.records f) names

omit [DecidableEq ι] in
/-- What does not touch the record and its stream does not touch the search. -/
theorem Follows.frame {names : List Text} (follows : Follows system f dos names)
    {after : DosUnit ι} (record : after.records f = dos.records f)
    (stream : ∀ d, (dos.records f).dirHandle = some d → after.streams d = dos.streams d) :
    Follows system f after names := by
  rw [Follows] at follows ⊢
  rw [record]
  cases held : (dos.records f).dirHandle with
  | none => rwa [held] at follows
  | some d =>
      rw [held] at follows
      have searching : Searching system (dos.streams d) (dos.records f) names := follows
      rw [← stream d held] at searching
      exact searching

/-- `FindNext` gives what is next. -/
theorem Follows.findnext {names : List Text} (follows : Follows system f dos names) :
    (dos.plangDosFindnext system f).answer f = (FileSystem.give names).1 ∧
      Follows system f (dos.plangDosFindnext system f) (FileSystem.give names).2 := by
  rw [Follows] at follows
  cases held : (dos.records f).dirHandle with
  | none =>
      rw [held] at follows
      obtain rfl : names = [] := follows
      have same : dos.plangDosFindnext system f = { dos with DosError := 18 } := by
        rw [plangDosFindnext, held]
      rw [same, Follows, held]
      exact ⟨rfl, rfl⟩
  | some d =>
      rw [held] at follows
      obtain ⟨terminated, attr, entries, stream, mask, short, rfl⟩ := follows
      set path := (dos.records f).pathPrefix.data with path_eq
      have path_le : path.length ≤ 255 := (dos.records f).pathPrefix.len_le
      have directory_le := length_directoryPart_le path
      have fits : ∀ name ∈ entries,
          name.length ≤ 255 ∧ (directoryPart path ++ name).length ≤ 1279 := by
        intro name member
        have name_le := short name member
        rw [List.length_append]
        omega
      have split : splitDirAndPattern (cstr (dos.records f).pathPrefix) 1024 =
          (directoryPart path, patternPart path) := by
        rw [cstr, terminated]
        exact splitDirAndPattern_eq (by omega) (by decide)
      have stepped : dos.plangDosFindnext system f =
          { dos with
            records := Function.update dos.records f (system.nextEntry (directoryPart path)
              (patternPart path) (dos.records f) entries).1
            streams := Function.update dos.streams d (some (system.nextEntry (directoryPart path)
              (patternPart path) (dos.records f) entries).2.1)
            DosError := if (system.nextEntry (directoryPart path) (patternPart path)
              (dos.records f) entries).2.2 then 0 else 18 } := by
        rw [plangDosFindnext, held]
        simp only [split, stream, Option.getD_some]
      obtain ⟨kept_handle, kept_path, kept_mask⟩ := system.nextEntry_keeps (directoryPart path)
        (patternPart path) (dos.records f) entries
      obtain ⟨given, left_suffix⟩ :
          system.Gives path attr entries (system.nextEntry (directoryPart path) (patternPart path)
            (dos.records f) entries) := FileSystem.nextEntry_gives mask fits
      rw [stepped, given]
      refine ⟨?_, ?_⟩
      · rw [answer]
        dsimp only
        rw [Function.update_self]
        split <;> rfl
      · rw [Follows]
        dsimp only
        rw [Function.update_self, kept_handle, held]
        dsimp only
        rw [Function.update_self]
        refine ⟨by rwa [kept_path], attr, _, rfl, kept_mask.trans mask,
          fun name member => short name (left_suffix.subset member), ?_⟩
        rw [kept_path]

omit [DecidableEq ι] in
/-- A record that holds no stream gives nothing. -/
theorem follows_nil (released : (dos.records f).dirHandle = none) : Follows system f dos [] := by
  rw [Follows, released]

omit [DecidableEq ι] in
theorem follows_of_searching {names : List Text} {d : Nat}
    (held : (dos.records f).dirHandle = some d)
    (searching : Searching system (dos.streams d) (dos.records f) names) :
    Follows system f dos names := by
  rw [Follows, held]
  exact searching

/-- `FindFirst` gives the first entry that the search finds, if the record can hold the path. -/
theorem follows_findfirst (system : FileSystem) (f : ι) (dos : DosUnit ι) {path : Text}
    (attr : UInt16) (names : List Text) (short : (cString path).length ≤ 255) :
    (dos.plangDosFindfirst system f (cString path) attr).answer f =
        (system.search (.FindFirst path attr) names).1 ∧
      Follows system f (dos.plangDosFindfirst system f (cString path) attr)
        (system.search (.FindFirst path attr) names).2 := by
  have whole : (writeSStr 255 (cString path)).data = cString path := List.take_of_length_le short
  have terminated : cString (cString path) = cString path := by
    rw [cString, cString, List.takeWhile_idem]
  have split : splitDirAndPattern (cString path) 1024 =
      (directoryPart (cString path), patternPart (cString path)) :=
    splitDirAndPattern_eq (by omega) (by decide)
  have refused : ∀ record : PlangDosSearchRec, record.dirHandle = none →
      (dos.refuse f record).answer f = .error 3 ∧ Follows system f (dos.refuse f record) [] :=
    fun record released => ⟨rfl, follows_nil (by rwa [refuse_self])⟩
  rw [plangDosFindfirst, FileSystem.search]
  by_cases empty : cString path = []
  · rw [if_pos empty, if_pos empty]
    exact refused .zero rfl
  · rw [if_neg empty, if_neg empty]
    dsimp only
    rw [split]
    cases opens : system.opendir (directoryPart (cString path)) with
    | none =>
        exact refused { PlangDosSearchRec.zero with
          pathPrefix := writeSStr 255 (cString path), searchAttr := searchMask attr } rfl
    | some entries =>
        apply Follows.findnext
        refine follows_of_searching (d := dos.opened) (by rw [opens_self]) ?_
        rw [opens_self, opens_stream]
        refine ⟨?_, attr, entries, rfl, rfl, system.name_le _ _ opens, ?_⟩
        · dsimp only
          rw [whole, terminated]
        · dsimp only
          rw [whole]

/-- A call with the record does what the search does by itself. -/
theorem Follows.own_call {names : List Text} (follows : Follows system f dos names)
    {call : SearchCall}
    (short : ∀ path attr, call = .FindFirst path attr → (cString path).length ≤ 255) :
    (dos.step system f call).1 = (system.search call names).1 ∧
      Follows system f (dos.step system f call).2 (system.search call names).2 := by
  cases call with
  | FindFirst path attr => exact follows_findfirst system f dos attr names (short path attr rfl)
  | FindNext => exact follows.findnext
  | FindClose =>
      refine ⟨rfl, follows_nil ?_⟩
      change ((dos.plangDosFindclose f).records f).dirHandle = none
      rw [plangDosFindclose]
      cases held : (dos.records f).dirHandle with
      | none => exact held
      | some d => exact congrArg _ (Function.update_self _ _ _)

theorem Follows.other_findnext {names : List Text} (follows : Follows system f dos names)
    (sound : dos.Sound) {g : ι} (ne : g ≠ f) :
    Follows system f (dos.plangDosFindnext system g) names := by
  obtain ⟨-, records, streams, -, -⟩ := plangDosFindnext_keeps system g dos
  exact follows.frame (records f ne.symm) fun d mine =>
    streams d fun theirs => ne (sound.apart g f d theirs mine)

/-- A call with another record leaves the search as it is. -/
theorem Follows.other_call {names : List Text} (follows : Follows system f dos names)
    (sound : dos.Sound) {g : ι} (ne : g ≠ f) (call : SearchCall) :
    Follows system f (dos.step system g call).2 names := by
  cases call with
  | FindFirst path attr =>
      have refused : ∀ record, Follows system f (dos.refuse g record) names := fun record =>
        follows.frame (refuse_of_ne record ne.symm) fun _ _ => rfl
      -- a new stream is none that the search holds
      have begun : ∀ record entries, Follows system f (dos.opens g record entries) names :=
        fun record entries => follows.frame (opens_of_ne record entries ne.symm) fun d mine =>
          opens_stream_of_ne record entries (Nat.ne_of_lt (sound.held f d mine).1)
      change Follows system f (dos.plangDosFindfirst system g (cString path) attr) names
      rw [plangDosFindfirst]
      split
      · exact refused _
      · dsimp only
        split
        · exact refused _
        · exact (begun _ _).other_findnext (sound.opens g _ _) ne
  | FindNext => exact follows.other_findnext sound ne
  | FindClose =>
      change Follows system f (dos.plangDosFindclose g) names
      rw [plangDosFindclose]
      cases held : (dos.records g).dirHandle with
      | none => exact follows
      | some other =>
          refine follows.frame (Function.update_of_ne ne.symm _ _) fun d mine => ?_
          refine Function.update_of_ne (fun same => ne (sound.apart g f d ?_ mine)) _ _
          rw [held, same]

/-- No search has begun.  The records are variables of the program, zero before their first use. -/
def initial : DosUnit ι where
  records _ := .zero
  streams _ := none
  opened := 0
  closed := []
  DosError := 0

omit [DecidableEq ι] in
theorem sound_initial : (initial : DosUnit ι).Sound :=
  ⟨nofun, nofun, nofun, List.nodup_nil⟩

/-- Whatever is called with the others, a record sees its own searches: each of them gives the
entries of its directory that match, in order, and then the error 18.  No stream is closed twice. -/
theorem searches_independent (system : FileSystem) (calls : List (ι × SearchCall)) (f : ι)
    (short : ∀ path attr, .FindFirst path attr ∈ own f calls → (cString path).length ≤ 255) :
    own f (run (step system) initial calls).1 = runAlone system.search [] (own f calls) ∧
      (run (step system) initial calls).2.closed.Nodup := by
  have keeps : ∀ (g : ι) call (dos : DosUnit ι), dos.Sound → (dos.step system g call).2.Sound :=
    fun g call _ sound => sound.step system g call
  have own_call : ∀ call (dos : DosUnit ι) names,
      (∀ path attr, call = .FindFirst path attr → (cString path).length ≤ 255) → dos.Sound →
      Follows system f dos names →
      (dos.step system f call).1 = (system.search call names).1 ∧
        Follows system f (dos.step system f call).2 (system.search call names).2 :=
    fun _ _ _ fits _ follows => follows.own_call fits
  refine ⟨own_answers keeps own_call ?_ calls ?_ sound_initial (follows_nil rfl),
    (run_keeps keeps calls sound_initial).nodup⟩
  · intro g call dos names ne sound follows
    exact follows.other_call sound ne call
  · rintro _ listed path attr rfl
    exact short path attr listed

/-- A system with one directory of plain files.  Its patterns are a star, or names. -/
def oneDirectory (directory : Text) (names : List Text)
    (name_le : ∀ name ∈ names, name.length ≤ 255) : FileSystem where
  opendir path := if path = directory then some names else none
  fnmatch pattern name := pattern = "*".toList || pattern = name
  stat path := if names.any (directory ++ · = path) then some ⟨false, 0, 0⟩ else none
  writable _ := true
  localtime _ := none
  name_le path found opened := by
    split at opened
    · obtain rfl := Option.some.inj opened
      exact name_le
    · cases opened

/-- Two files, and a search in the course of another one. -/
theorem searches_independent_nested :
    let calls : List (Nat × SearchCall) :=
      [(0, .FindFirst "d/*".toList 0), (1, .FindFirst "d/b".toList 0), (0, .FindNext),
        (1, .FindClose), (0, .FindNext)]
    own 0 (run (step (oneDirectory "d/".toList ["a".toList, "b".toList] (by decide))) initial
        calls).1 = [.found "a".toList, .found "b".toList, .error 18] ∧
      (run (step (oneDirectory "d/".toList ["a".toList, "b".toList] (by decide))) initial
        calls).2.closed.Nodup := by
  intro calls
  have short : ∀ path attr, .FindFirst path attr ∈ own 0 calls → (cString path).length ≤ 255 := by
    intro path attr listed
    obtain ⟨rfl, rfl⟩ : path = "d/*".toList ∧ attr = 0 := by simpa [calls, own] using listed
    decide
  obtain ⟨answers, nodup⟩ := searches_independent
    (oneDirectory "d/".toList ["a".toList, "b".toList] (by decide)) calls 0 short
  exact ⟨answers.trans (by decide), nodup⟩

/-- The path of a file in 130 nested directories does not fit the record: the file is not found. -/
theorem search_too_long :
    ¬∀ (system : FileSystem) (calls : List (Nat × SearchCall)) (f : Nat),
      own f (run (step system) initial calls).1 = runAlone system.search [] (own f calls) := by
  intro holds
  have long := holds
    (oneDirectory (List.replicate 130 "d/".toList).flatten ["f".toList] (by decide))
    [(0, .FindFirst ((List.replicate 130 "d/".toList).flatten ++ "f".toList) 0)] 0
  exact absurd long (by decide +kernel)

end DosUnit

end Runtime

end Plang
