-- SUMMARY: What a load command brings to an image, and which files can be read at all.
import MachInspect.Image.Reader

/-!
# How images are read

A command either lacks room for what it has to hold, and then reading fails, or it brings its part
of the image, whatever that part refers to. From this, command by command, come a rule for what all
commands keep and the exact condition under which a file can be read.
-/
namespace MachInspect.Image

/-! ## Tables -/

section Tables

variable {data : Bytes} {offset count size : Nat}

@[simp] theorem length_entries (size count : Nat) (data : Bytes) :
    (entries size count data).length = count := by
  induction count generalizing data with
  | zero => rfl
  | succ count ih => rw [entries, List.length_cons, ih]

theorem table?_of_le (h : offset + count * size ≤ data.length) :
    table? data offset count size =
      some (entries size count ((data.drop offset).take (count * size))) := by
  unfold table?
  split
  · rename_i hzero
    rw [hzero, entries]
  · rw [slice?, if_pos h, Option.map_some]

theorem table?_of_lt (hcount : count ≠ 0) (h : data.length < offset + count * size) :
    table? data offset count size = none := by
  rw [table?, if_neg hcount, slice?, if_neg (Nat.not_le.mpr h), Option.map_none]

end Tables

/-! ## Segments -/

section Segments

variable {order : ByteOrder} {wide : Bool} {body : Bytes}

def segmentTag (wide : Bool) : UInt32 := if wide then 0x19 else 0x1

/-- Where the section headers start in a segment command. -/
def headersStart (wide : Bool) : Nat := if wide then 72 else 56

def sectionHeaderSize (wide : Bool) : Nat := if wide then 80 else 68

/-- The number of sections that a segment command tells. -/
def sectionCount (order : ByteOrder) (wide : Bool) (body : Bytes) : Nat :=
  (word32 order body (headersStart wide - 8)).toNat

/-- The section headers of a segment command, if they are all there. -/
def sectionHeaders? (order : ByteOrder) (wide : Bool) (body : Bytes) : Option (List Bytes) :=
  table? (body.drop (headersStart wide)) 0 (sectionCount order wide body) (sectionHeaderSize wide)

theorem sectionHeaders?_isSome_iff (h : headersStart wide ≤ body.length) :
    (∃ headers, sectionHeaders? order wide body = some headers) ↔
      headersStart wide + sectionCount order wide body * sectionHeaderSize wide ≤ body.length := by
  have hdrop := List.length_drop (i := headersStart wide) (l := body)
  unfold sectionHeaders?
  constructor
  · rintro ⟨headers, hsome⟩
    refine Nat.le_of_not_lt fun hlt => ?_
    have hcount : sectionCount order wide body ≠ 0 := by
      intro hzero
      rw [hzero, Nat.zero_mul] at hlt
      omega
    rw [table?_of_lt hcount (by omega)] at hsome
    cases hsome
  · intro hle
    exact ⟨_, table?_of_le (by omega)⟩

theorem length_of_sectionHeaders? {headers : List Bytes}
    (h : sectionHeaders? order wide body = some headers) :
    headers.length = sectionCount order wide body := by
  unfold sectionHeaders? table? at h
  split at h
  · rename_i hzero
    cases h
    exact hzero.symm
  · obtain ⟨_, -, rfl⟩ := Option.map_eq_some_iff.mp h
    exact length_entries ..

/-- A segment is read whenever its section headers are there, wherever they say the sections are. -/
theorem readSegment_cases (src : Source) (wide : Bool) (before : Nat) (body : Bytes) :
    (sectionHeaders? src.order wide body = none ∧
      readSegment src wide before body = .error .sectionCount) ∨
    ∃ headers segment, sectionHeaders? src.order wide body = some headers ∧
      segment.sectionCount.toNat = sectionCount src.order wide body ∧
      segment.sections =
        (headers.mapIdx fun i => readSection src wide (before + i + 1)).map Section.index ∧
      readSegment src wide before body =
        .ok (segment, headers.mapIdx fun i => readSection src wide (before + i + 1)) := by
  have hheaders : table? (body.drop (24 + 4 * (if wide then 8 else 4) + 16)) 0
      (word32 src.order body (24 + 4 * (if wide then 8 else 4) + 8)).toNat
      (if wide then 80 else 68) = sectionHeaders? src.order wide body := by
    cases wide <;> rfl
  have hcount : (word32 src.order body (24 + 4 * (if wide then 8 else 4) + 8)).toNat =
      sectionCount src.order wide body := by
    cases wide <;> rfl
  simp only [readSegment, hheaders]
  cases sectionHeaders? src.order wide body with
  | none => exact .inl ⟨rfl, rfl⟩
  | some headers => exact .inr ⟨headers, _, rfl, hcount, rfl, rfl⟩

end Segments

/-! ## Commands -/

section Commands

variable {src : Source} {order : ByteOrder} {body : Bytes} {c c' : Contents}

/-- A command has room for what its kind always holds, and a segment for its section headers. -/
structure HasRoom (order : ByteOrder) (body : Bytes) : Prop where
  kind_le : minimumSize (word32 order body 0) ≤ body.length
  headers_le : ∀ wide, word32 order body 0 = segmentTag wide →
    headersStart wide + sectionCount order wide body * sectionHeaderSize wide ≤ body.length

/-- What a command brings to the contents before it. -/
inductive Brings (src : Source) (body : Bytes) (c : Contents) : Contents → Prop where
  | segment {wide : Bool} {headers : List Bytes} {segment : Segment}
      (headers_eq : sectionHeaders? src.order wide body = some headers)
      (count_eq : segment.sectionCount.toNat = sectionCount src.order wide body)
      (sections_eq : segment.sections = (headers.mapIdx fun i =>
        readSection src wide (c.sections.length + i + 1)).map Section.index) :
      Brings src body c
        { commands := c.commands ++
            [⟨word32 src.order body 0, word32 src.order body 4, .segment segment⟩]
          sections := c.sections ++ headers.mapIdx fun i =>
            readSection src wide (c.sections.length + i + 1)
          symbols := c.symbols }
  | other {directive : Directive} {symbols : List Symbol}
      (not_segment : ∀ segment, directive ≠ .segment segment) :
      Brings src body c
        { commands := c.commands ++
            [⟨word32 src.order body 0, word32 src.order body 4, directive⟩]
          sections := c.sections
          symbols := c.symbols ++ symbols }

theorem segmentTag_inj {wide wide' : Bool} (h : segmentTag wide = segmentTag wide') :
    wide = wide' := by
  revert h
  cases wide <;> cases wide' <;> decide

theorem minimumSize_segmentTag (wide : Bool) :
    minimumSize (segmentTag wide) = headersStart wide := by
  cases wide <;> decide

theorem hasRoom_segment_iff {wide : Bool} (htag : word32 order body 0 = segmentTag wide)
    (hkind : minimumSize (word32 order body 0) ≤ body.length) :
    HasRoom order body ↔ ∃ headers, sectionHeaders? order wide body = some headers := by
  have hstart : headersStart wide ≤ body.length := by
    rwa [htag, minimumSize_segmentTag] at hkind
  rw [sectionHeaders?_isSome_iff hstart]
  constructor
  · intro hroom
    exact hroom.headers_le wide htag
  · refine fun hle => ⟨hkind, fun wide' htag' => ?_⟩
    rwa [← segmentTag_inj (htag.symm.trans htag')]

theorem readCommand_segment {wide : Bool} (htag : word32 src.order body 0 = segmentTag wide)
    (hkind : minimumSize (word32 src.order body 0) ≤ body.length) :
    readCommand src body c =
      (readSegment src wide c.sections.length body).map fun (segment, sections) =>
        { commands := c.commands ++
            [⟨word32 src.order body 0, word32 src.order body 4, .segment segment⟩]
          sections := c.sections ++ sections
          symbols := c.symbols } := by
  have hwide : decide (segmentTag wide = 0x19) = wide := by cases wide <;> decide
  have hbranch : segmentTag wide = 0x1 ∨ segmentTag wide = 0x19 := by cases wide <;> decide
  rw [htag] at hkind
  simp only [readCommand, htag, if_neg (Nat.not_lt.mpr hkind), if_pos hbranch, hwide]
  cases readSegment src wide c.sections.length body <;> rfl

/-- All other commands are read, also if what they refer to is not in the file. -/
theorem readCommand_other (htag : ∀ wide, word32 src.order body 0 ≠ segmentTag wide)
    (hkind : minimumSize (word32 src.order body 0) ≤ body.length) :
    ∃ c', readCommand src body c = .ok c' ∧ Brings src body c c' := by
  have hother (directive : Directive) (hdirective : ∀ segment, directive ≠ .segment segment) :
      Brings src body c { c with commands := c.commands ++
        [⟨word32 src.order body 0, word32 src.order body 4, directive⟩] } := by
    have hbrings : Brings src body c
        { commands := c.commands ++
            [⟨word32 src.order body 0, word32 src.order body 4, directive⟩]
          sections := c.sections
          symbols := c.symbols ++ [] } := .other hdirective
    rwa [List.append_nil] at hbrings
  have hbranch : ¬ (word32 src.order body 0 = 0x1 ∨ word32 src.order body 0 = 0x19) :=
    fun h => h.elim (htag false) (htag true)
  simp only [readCommand, if_neg (Nat.not_lt.mpr hkind), if_neg hbranch]
  split
  · exact ⟨_, rfl, .other (by simp)⟩
  split
  · exact ⟨_, rfl, hother _ (by simp)⟩
  split
  · exact ⟨_, rfl, hother _ (by simp)⟩
  split
  · exact ⟨_, rfl, hother _ (by simp)⟩
  · exact ⟨_, rfl, hother _ (by simp)⟩

/-- A command without room is an error; any other one brings its part. -/
theorem readCommand_cases (src : Source) (body : Bytes) (c : Contents) :
    (¬ HasRoom src.order body ∧ ∃ e, readCommand src body c = .error e) ∨
    (HasRoom src.order body ∧ ∃ c', readCommand src body c = .ok c' ∧ Brings src body c c') := by
  by_cases hkind : minimumSize (word32 src.order body 0) ≤ body.length
  · by_cases hsegment : ∃ wide, word32 src.order body 0 = segmentTag wide
    · obtain ⟨wide, htag⟩ := hsegment
      have hroom := hasRoom_segment_iff htag hkind
      rw [readCommand_segment htag hkind]
      rcases readSegment_cases src wide c.sections.length body with
        ⟨hnone, herror⟩ | ⟨headers, segment, hsome, hcount, hsections, hok⟩
      · rw [herror, hroom]
        exact .inl ⟨by simp [hnone], .sectionCount, rfl⟩
      · rw [hok, hroom]
        exact .inr ⟨⟨headers, hsome⟩, _, rfl, .segment hsome hcount hsections⟩
    · have htag : ∀ wide, word32 src.order body 0 ≠ segmentTag wide :=
        fun wide h => hsegment ⟨wide, h⟩
      exact .inr ⟨⟨hkind, fun wide h => absurd h (htag wide)⟩, readCommand_other htag hkind⟩
  · refine .inl ⟨fun hroom => hkind hroom.kind_le, .commandBody, ?_⟩
    exact if_pos (Nat.lt_of_not_le hkind)

theorem readCommand_brings (h : readCommand src body c = .ok c') : Brings src body c c' := by
  rcases readCommand_cases src body c with ⟨-, e, herror⟩ | ⟨-, _, hok, hbrings⟩
  · rw [herror] at h
    cases h
  · rw [hok] at h
    cases h
    exact hbrings

theorem readCommand_ok_iff :
    (∃ c', readCommand src body c = .ok c') ↔ HasRoom src.order body := by
  rcases readCommand_cases src body c with ⟨hroom, e, herror⟩ | ⟨hroom, c', hok, -⟩
  · simp [herror, hroom]
  · simp [hok, hroom]

end Commands

/-! ## Runs of commands -/

section Runs

variable {src : Source} {order : ByteOrder} {body rest : Bytes} {count : Nat} {c c' : Contents}

/-- A command tells its own length and has room for what it holds. -/
structure WholeCommand (order : ByteOrder) (body : Bytes) : Prop extends HasRoom order body where
  length_eq : number order body 4 4 = body.length
  eight_le : 8 ≤ body.length

/-- The bytes start with that many whole commands, one after the other. -/
def StartsWithCommands (order : ByteOrder) (count : Nat) (rest : Bytes) : Prop :=
  ∃ bodies : List Bytes, bodies.length = count ∧ bodies.flatten <+: rest ∧
    ∀ body ∈ bodies, WholeCommand order body

theorem number_take {offset width len : Nat} (h : offset + width ≤ len) :
    number order (rest.take len) offset width = number order rest offset width := by
  rw [number, number, List.drop_take, List.take_take, Nat.min_eq_left (by omega)]

theorem startsWithCommands_succ_iff :
    StartsWithCommands order (count + 1) rest ↔
      ∃ body more, rest = body ++ more ∧ WholeCommand order body ∧
        StartsWithCommands order count more := by
  constructor
  · rintro ⟨bodies, hlength, ⟨tail, htail⟩, hwhole⟩
    cases bodies with
    | nil => cases hlength
    | cons body bodies =>
      rw [List.forall_mem_cons] at hwhole
      refine ⟨body, bodies.flatten ++ tail, ?_, hwhole.1, bodies, ?_, ⟨tail, rfl⟩, hwhole.2⟩
      · rw [← htail, List.flatten_cons, List.append_assoc]
      · exact Nat.succ.inj hlength
  · rintro ⟨body, more, rfl, hbody, bodies, hlength, hpre, hwhole⟩
    refine ⟨body :: bodies, congrArg (· + 1) hlength, ?_, List.forall_mem_cons.mpr ⟨hbody, hwhole⟩⟩
    exact List.flatten_cons ▸ (List.prefix_append_right_inj body).mpr hpre

/-- One step of the loop: the next command is cut off and read. -/
theorem readCommands_succ_ok_iff :
    readCommands src (count + 1) rest c = .ok c' ↔
      ∃ body more next, rest = body ++ more ∧ WholeCommand src.order body ∧
        readCommand src body c = .ok next ∧ readCommands src count more next = .ok c' := by
  constructor
  · intro h
    simp only [readCommands] at h
    split at h
    · cases h
    split at h
    · cases h
    rename_i hsize
    have hsize : 8 ≤ number src.order rest 4 4 ∧ number src.order rest 4 4 ≤ rest.length := by omega
    generalize hlen : number src.order rest 4 4 = len at h hsize
    cases hread : readCommand src (rest.take len) c with
    | error e => simp [hread, bind, Except.bind] at h
    | ok next =>
      rw [hread] at h
      refine ⟨rest.take len, rest.drop len, next, (List.take_append_drop _ _).symm,
        ⟨readCommand_ok_iff.mp ⟨next, hread⟩, ?_, ?_⟩, hread, h⟩
      -- The length is among the first eight bytes, so the command still tells it when cut off.
      · rw [number_take hsize.1, hlen, List.length_take, Nat.min_eq_left hsize.2]
      · rw [List.length_take, Nat.min_eq_left hsize.2]
        exact hsize.1
  · rintro ⟨body, more, next, rfl, hwhole, hread, hrest⟩
    have height := hwhole.eight_le
    have hlen : number src.order ((body ++ more).take body.length) 4 4 =
        number src.order (body ++ more) 4 4 := number_take height
    rw [List.take_left, hwhole.length_eq] at hlen
    have hlength : (body ++ more).length = body.length + more.length := List.length_append
    simp only [readCommands, ← hlen]
    rw [if_neg (by omega), if_neg (by omega), List.take_left, List.drop_left, hread]
    exact hrest

/-- Whatever every command keeps, all of them keep. -/
theorem readCommands_invariant {P : Contents → Prop}
    (hstep : ∀ {body c c'}, P c → Brings src body c c' → P c') (hc : P c)
    (h : readCommands src count rest c = .ok c') : P c' := by
  induction count generalizing rest c with
  | zero =>
    cases h
    exact hc
  | succ count ih =>
    obtain ⟨_, _, _, -, -, hread, hrest⟩ := readCommands_succ_ok_iff.mp h
    exact ih (hstep hc (readCommand_brings hread)) hrest

theorem readCommands_ok_iff :
    (∃ c', readCommands src count rest c = .ok c') ↔ StartsWithCommands src.order count rest := by
  induction count generalizing rest c with
  | zero => exact ⟨fun _ => ⟨[], rfl, List.nil_prefix, by simp⟩, fun _ => ⟨c, rfl⟩⟩
  | succ count ih =>
    rw [startsWithCommands_succ_iff]
    constructor
    · rintro ⟨c', h⟩
      obtain ⟨body, more, next, hsplit, hwhole, -, hrest⟩ := readCommands_succ_ok_iff.mp h
      exact ⟨body, more, hsplit, hwhole, ih.mp ⟨c', hrest⟩⟩
    · rintro ⟨body, more, hsplit, hwhole, hstarts⟩
      obtain ⟨next, hread⟩ := readCommand_ok_iff.mpr hwhole.toHasRoom
      obtain ⟨c', hrest⟩ := ih.mpr hstarts
      exact ⟨c', readCommands_succ_ok_iff.mpr ⟨body, more, next, hsplit, hwhole, hread, hrest⟩⟩

end Runs

/-! ## Files -/

section Files

variable {host : Arch} {wide : Bool} {file : Bytes} {image : Image}

def headerSize (wide : Bool) : Nat := if wide then 32 else 28

/-- The byte order that the magic number of a thin file tells. -/
def thinOrder (file : Bytes) : ByteOrder :=
  if word32 .big file 0 = 0xfeedface ∨ word32 .big file 0 = 0xfeedfacf then .big else .little

def commandCount (file : Bytes) : Nat := (word32 (thinOrder file) file 16).toNat

def commandBytes (file : Bytes) : Nat := (word32 (thinOrder file) file 20).toNat

/-- The bytes between the header and the end of the commands. -/
def commandArea (wide : Bool) (file : Bytes) : Bytes :=
  (file.drop (headerSize wide)).take (commandBytes file)

/-- The header and the commands of a thin file are whole. Nothing is said about what the commands
refer to: contents of sections, relocation tables, symbols and their names. -/
structure Loadable (wide : Bool) (file : Bytes) : Prop where
  header_le : headerSize wide ≤ file.length
  area_le : headerSize wide + commandBytes file ≤ file.length
  commands : StartsWithCommands (thinOrder file) (commandCount file) (commandArea wide file)

def thinSource (wide : Bool) (file : Bytes) : Source :=
  ⟨file, thinOrder file, word32 (thinOrder file) file 4, wide⟩

/-- The image of a thin file whose commands bring these contents. -/
def thinImage (file : Bytes) (c : Contents) : Image :=
  let word (offset : Nat) := word32 (thinOrder file) file offset
  { header :=
      { magic := word32 .big file 0
        cpuType := word 4
        cpuSubtype := word 8
        fileType := word 12
        commandCount := word 16
        commandBytes := word 20
        flags := word 24 }
    order := thinOrder file
    arch := Arch.ofCpuType (word 4)
    commands := c.commands
    sections := c.sections
    symbols := c.symbols }

theorem readThin_eq (wide : Bool) (file : Bytes) :
    readThin wide file =
      if file.length < headerSize wide then .error .header
      else match slice? file (headerSize wide) (commandBytes file) with
        | none => .error .commandTable
        | some area => (readCommands (thinSource wide file) (commandCount file) area {}).map
            (thinImage file) :=
  rfl

theorem readThin_eq_ok_iff :
    readThin wide file = .ok image ↔
      headerSize wide ≤ file.length ∧ headerSize wide + commandBytes file ≤ file.length ∧
      ∃ c, readCommands (thinSource wide file) (commandCount file) (commandArea wide file) {} =
        .ok c ∧ thinImage file c = image := by
  rw [readThin_eq, slice?]
  by_cases hheader : headerSize wide ≤ file.length
  · rw [if_neg (Nat.not_lt.mpr hheader)]
    by_cases harea : headerSize wide + commandBytes file ≤ file.length
    · rw [if_pos harea]
      simp only [hheader, harea, true_and]
      rw [← commandArea]
      cases readCommands (thinSource wide file) (commandCount file) (commandArea wide file) {} <;>
        simp [Except.map]
    · simp [harea]
  · simp [hheader, Nat.lt_of_not_le hheader]

theorem readThin_ok_iff : (∃ image, readThin wide file = .ok image) ↔ Loadable wide file := by
  constructor
  · rintro ⟨image, h⟩
    obtain ⟨hheader, harea, c, hread, -⟩ := readThin_eq_ok_iff.mp h
    exact ⟨hheader, harea, readCommands_ok_iff.mp ⟨c, hread⟩⟩
  · rintro ⟨hheader, harea, hcommands⟩
    obtain ⟨c, hread⟩ : ∃ c, readCommands (thinSource wide file) (commandCount file)
        (commandArea wide file) {} = .ok c := readCommands_ok_iff.mpr hcommands
    exact ⟨_, readThin_eq_ok_iff.mpr ⟨hheader, harea, c, hread, rfl⟩⟩

def thinKind (wide : Bool) : FileKind := if wide then .thin64 else .thin32

def fatKind (wide : Bool) : FileKind := if wide then .fat64 else .fat32

/-- The thin file that is read from a file: itself, or a slice of it if it is fat. -/
inductive Chosen (host : Arch) (file : Bytes) : Bool → Bytes → Prop where
  | thin {wide : Bool} (kind : fileKind file = .ok (thinKind wide)) : Chosen host file wide file
  | slice {outer wide : Bool} {arches : List FatArch} {arch : FatArch} {inner : Bytes}
      (kind : fileKind file = .ok (fatKind outer)) (arches_eq : fatArches outer file = .ok arches)
      (choice : chooseArch host arches = some arch)
      (inside : slice? file arch.offset arch.size = some inner)
      (inner_kind : fileKind inner = .ok (thinKind wide)) : Chosen host file wide inner

theorem exists_chosen_of_readFat {outer : Bool} (hkind : fileKind file = .ok (fatKind outer))
    (h : readFat host outer file = .ok image) :
    ∃ wide inner, Chosen host file wide inner ∧ readThin wide inner = .ok image := by
  simp only [readFat, bind, Except.bind] at h
  split at h
  · cases h
  rename_i harches
  split at h
  · cases h
  rename_i hchoice
  split at h
  · cases h
  rename_i hinside
  split at h
  · cases h
  rename_i hinner
  split at h
  · exact ⟨false, _, .slice hkind harches hchoice hinside hinner, h⟩
  · exact ⟨true, _, .slice hkind harches hchoice hinside hinner, h⟩
  · cases h

/-- A file is read through the thin file that is chosen in it. -/
theorem read_eq_ok_iff :
    read host file = .ok image ↔
      ∃ wide inner, Chosen host file wide inner ∧ readThin wide inner = .ok image := by
  constructor
  · intro h
    simp only [read, bind, Except.bind] at h
    split at h
    · cases h
    rename_i hkind
    split at h
    · exact ⟨false, file, .thin hkind, h⟩
    · exact ⟨true, file, .thin hkind, h⟩
    · exact exists_chosen_of_readFat (show fileKind file = .ok (fatKind false) from hkind) h
    · exact exists_chosen_of_readFat (show fileKind file = .ok (fatKind true) from hkind) h
    · cases h
  · rintro ⟨wide, inner, hchosen, h⟩
    cases hchosen with
    | thin kind => cases wide <;> simpa [read, kind, thinKind, bind, Except.bind] using h
    | @slice outer _ arches arch _ kind arches_eq choice inside inner_kind =>
      have hfat : readFat host outer file = .ok image := by
        cases wide <;> simpa [readFat, arches_eq, choice, inside, inner_kind, thinKind, bind,
          Except.bind] using h
      cases outer <;> simpa [read, kind, fatKind, bind, Except.bind] using hfat

theorem read_ok_iff :
    (∃ image, read host file = .ok image) ↔
      ∃ wide inner, Chosen host file wide inner ∧ Loadable wide inner := by
  constructor
  · rintro ⟨image, h⟩
    obtain ⟨wide, inner, hchosen, hread⟩ := read_eq_ok_iff.mp h
    exact ⟨wide, inner, hchosen, readThin_ok_iff.mp ⟨image, hread⟩⟩
  · rintro ⟨wide, inner, hchosen, hloadable⟩
    obtain ⟨image, hread⟩ := readThin_ok_iff.mpr hloadable
    exact ⟨image, read_eq_ok_iff.mpr ⟨wide, inner, hchosen, hread⟩⟩

end Files

end MachInspect.Image
