import TestMac.Lib.Paths
import Mathlib.Data.List.Infix

/-!
# Two log files written in turn: `cmmLog.c`

`logToFilelog` writes one line after the other into a file, and changes to the other file,
which loses what it held, when 10240 bytes have been counted. Every call of the C library may
fail; the file is closed then, and opened anew for the next line.
-/

namespace TestMac

/-- What becomes of a line that is printed and flushed. -/
inductive LineWritten
  | whole
  /-- `fprintf` fails when some bytes of the line may have reached the file. -/
  | printFails (written : ℕ)
  /-- `fflush` fails. -/
  | flushFails (written : ℕ)
  deriving DecidableEq

/-- A call of `logToFilelog`: the line with the time in front, whether the file can be opened
if it must be, and what becomes of the line. -/
structure LogCall where
  line : List UInt8
  opens : Bool
  written : LineWritten

/-- The two files, the file that `log_file_handle` has open, and the static variables. -/
structure LogFiles where
  files : ℕ → List UInt8
  handle : Option ℕ
  currentFileNo : ℕ
  fileByteCount : ℤ

/-- `MAX_FILE_SIZE`. -/
abbrev maxFileSize : ℕ := 10240

/-- `openFile`, in mode `w+`: the value returned is 0 if the file is open. -/
def openFile (opens : Bool) (st : LogFiles) : ℤ × LogFiles :=
  if st.currentFileNo ≠ 0 ∧ st.currentFileNo ≠ 1 then (-1, st)
  else if opens then
    (0, { st with
      files := Function.update st.files st.currentFileNo []
      handle := some st.currentFileNo })
  else (-1, { st with handle := none })

/-- The bytes that reach the file that is open. -/
def LogFiles.append (bytes : List UInt8) (st : LogFiles) : LogFiles :=
  match st.handle with
  | none => st
  | some n => { st with files := Function.update st.files n (st.files n ++ bytes) }

/-- `writeFile`: -1 after a failure, 1 if the file is full, and 0 otherwise. -/
def writeFile (call : LogCall) (st : LogFiles) : ℤ × LogFiles :=
  if st.currentFileNo ≠ 0 ∧ st.currentFileNo ≠ 1 then (-1, st)
  else match call.written with
    | .printFails written =>
      (-1, { st.append (call.line.take written) with fileByteCount := 0 })
    | .flushFails written => (-1, st.append (call.line.take written))
    | .whole =>
      let st := st.append call.line
      let fileByteCount := (st.fileByteCount + call.line.length).bmod 4294967296
      if (maxFileSize : ℤ) ≤ fileByteCount then (1, { st with fileByteCount := 0 })
      else (0, { st with fileByteCount := fileByteCount })

/-- `closeFile`: the handle is given up also when `fclose` fails. -/
def closeFile (st : LogFiles) : LogFiles :=
  if st.currentFileNo ≠ 0 ∧ st.currentFileNo ≠ 1 then st
  else { st with handle := none }

/-- The end of `logToFilelog`, for the value that `writeFile` has returned. -/
def changeFile (ret : ℤ) (st : LogFiles) : LogFiles :=
  if ret ≠ 0 then
    let st := closeFile st
    if ret = 1 then { st with currentFileNo := (st.currentFileNo + 1) % 2 } else st
  else st

/-- `logToFilelog`. -/
def logToFilelog (call : LogCall) (st : LogFiles) : LogFiles :=
  match st.handle with
  | none =>
    let opened := openFile call.opens st
    if opened.1 = 0 then
      let rest := writeFile call opened.2
      changeFile rest.1 rest.2
    else changeFile 0 opened.2
  | some _ =>
    let rest := writeFile call st
    changeFile rest.1 rest.2

/-- One call, with the line if there was a file for it. -/
def logStep (st : LogFiles) (call : LogCall) : LogFiles × List (List UInt8) :=
  (logToFilelog call st, if st.handle.isSome || call.opens then [call.line] else [])

/-- No file has been written yet. -/
def LogFiles.start : LogFiles := ⟨fun _ => [], none, 0, 0⟩

/-- What the two files hold, the older one first. Behind a change of the file, the one that
is to be opened next is the older one. -/
def LogFiles.retained (st : LogFiles) : List UInt8 :=
  match st.handle with
  | some n => st.files (1 - n) ++ st.files n
  | none => st.files st.currentFileNo ++ st.files (1 - st.currentFileNo)

/-- The variables agree, and no file is longer than a full one with one more line. -/
structure LogFiles.Sound (most : ℕ) (st : LogFiles) : Prop where
  current : st.currentFileNo ≤ 1
  low : 0 ≤ st.fileByteCount
  high : st.fileByteCount < maxFileSize
  opened : ∀ n ∈ st.handle, n = st.currentFileNo ∧ ((st.files n).length : ℤ) ≤ st.fileByteCount
  length : ∀ n, (st.files n).length < maxFileSize + most

variable {most : ℕ} {st : LogFiles} {call : LogCall} {calls : List LogCall}

section Sound

/-- Bytes of a line behind what is in the file. -/
theorem LogFiles.Sound.append_length (h : st.Sound most) {bytes : List UInt8}
    (hbytes : bytes.length ≤ most) (n : ℕ) :
    ((st.append bytes).files n).length < maxFileSize + most := by
  rw [LogFiles.append]
  cases hhandle : st.handle with
  | none => exact h.length n
  | some c =>
    dsimp only
    by_cases hn : n = c
    · obtain ⟨-, hlen⟩ := h.opened c hhandle
      have hhigh := h.high
      rw [hn, Function.update_self, List.length_append]
      omega
    · rw [Function.update_of_ne hn]
      exact h.length n

@[simp]
theorem append_currentFileNo (bytes : List UInt8) (st : LogFiles) :
    (st.append bytes).currentFileNo = st.currentFileNo := by
  unfold LogFiles.append
  cases st.handle <;> rfl

@[simp]
theorem append_fileByteCount (bytes : List UInt8) (st : LogFiles) :
    (st.append bytes).fileByteCount = st.fileByteCount := by
  unfold LogFiles.append
  cases st.handle <;> rfl

@[simp]
theorem append_handle (bytes : List UInt8) (st : LogFiles) :
    (st.append bytes).handle = st.handle := by
  unfold LogFiles.append
  cases hhandle : st.handle <;> simp [hhandle]

/-- A valid number of a file passes the tests of the functions. -/
theorem valid_currentFileNo (h : st.currentFileNo ≤ 1) :
    ¬ (st.currentFileNo ≠ 0 ∧ st.currentFileNo ≠ 1) := by
  omega

theorem openFile_opens (h : st.currentFileNo ≤ 1) :
    openFile true st = (0, { st with
      files := Function.update st.files st.currentFileNo []
      handle := some st.currentFileNo }) := by
  rw [openFile, if_neg (valid_currentFileNo h), if_pos rfl]

theorem openFile_fails (h : st.currentFileNo ≤ 1) :
    openFile false st = (-1, { st with handle := none }) := by
  rw [openFile, if_neg (valid_currentFileNo h), if_neg Bool.false_ne_true]

/-- A line is written to the file that is open. -/
def LogFiles.write (call : LogCall) (st : LogFiles) : LogFiles :=
  changeFile (writeFile call st).1 (writeFile call st).2

/-- What a line that is written changes: the file is closed after a failure, closed and
changed when it is full, and kept open otherwise. -/
theorem write_cases (h : st.Sound most) (hmost : most ≤ 2147473407)
    (hline : call.line.length ≤ most) :
    (call.written ≠ .whole ∧ ∃ written fileByteCount,
        (fileByteCount = 0 ∨ fileByteCount = st.fileByteCount) ∧
        st.write call = { st.append (call.line.take written) with
          handle := none, fileByteCount := fileByteCount }) ∨
      (call.written = .whole ∧ (maxFileSize : ℤ) ≤ st.fileByteCount + call.line.length ∧
        st.write call = { st.append call.line with
          handle := none, fileByteCount := 0, currentFileNo := (st.currentFileNo + 1) % 2 }) ∨
      (call.written = .whole ∧ st.fileByteCount + call.line.length < maxFileSize ∧
        st.write call = { st.append call.line with
          fileByteCount := st.fileByteCount + call.line.length }) := by
  have hlow := h.low
  have hhigh := h.high
  have hvalid := valid_currentFileNo h.current
  rw [LogFiles.write, writeFile, if_neg hvalid]
  cases hwritten : call.written with
  | printFails written =>
    refine .inl ⟨by simp, written, 0, .inl rfl, ?_⟩
    simp [changeFile, closeFile, hvalid]
  | flushFails written =>
    refine .inl ⟨by simp, written, st.fileByteCount, .inr rfl, ?_⟩
    simp [changeFile, closeFile, hvalid]
  | whole =>
    have hmax : (maxFileSize : ℤ) = 10240 := rfl
    have hsum : (st.fileByteCount + call.line.length).bmod 4294967296 =
        st.fileByteCount + call.line.length := by
      exact Int.bmod_eq_of_le (by omega) (by omega)
    right
    dsimp only
    rw [append_fileByteCount, hsum]
    by_cases hfull : (maxFileSize : ℤ) ≤ st.fileByteCount + call.line.length
    · refine .inl ⟨rfl, hfull, ?_⟩
      rw [if_pos hfull]
      simp [changeFile, closeFile, hvalid]
    · refine .inr ⟨rfl, by omega, ?_⟩
      rw [if_neg hfull]
      simp [changeFile]

/-- A call is a line written to the file that is open, to a file that is opened, or nowhere. -/
theorem logToFilelog_cases (h : st.currentFileNo ≤ 1) :
    (∃ n, st.handle = some n ∧ logToFilelog call st = st.write call) ∨
      (st.handle = none ∧ call.opens = true ∧
        logToFilelog call st = (openFile true st).2.write call) ∨
      (st.handle = none ∧ call.opens = false ∧ logToFilelog call st = st) := by
  unfold logToFilelog
  cases hhandle : st.handle with
  | some n => exact .inl ⟨n, rfl, rfl⟩
  | none =>
    right
    cases hopens : call.opens with
    | true =>
      refine .inl ⟨rfl, rfl, ?_⟩
      rw [openFile_opens h]
      rfl
    | false =>
      refine .inr ⟨rfl, rfl, ?_⟩
      rw [openFile_fails h]
      simp [changeFile, ← hhandle]

theorem LogFiles.Sound.opened_file (h : st.Sound most) : (openFile true st).2.Sound most := by
  rw [openFile_opens h.current]
  refine ⟨h.current, h.low, h.high, ?_, fun n => ?_⟩
  · intro n hn
    obtain rfl := Option.some.inj hn
    refine ⟨rfl, ?_⟩
    simpa using h.low
  · have hlength := h.length n
    by_cases hn : n = st.currentFileNo
    · dsimp only
      rw [hn, Function.update_self, List.length_nil]
      omega
    · simpa [Function.update_of_ne hn] using hlength

theorem LogFiles.Sound.write (h : st.Sound most) (hmost : most ≤ 2147473407)
    (hline : call.line.length ≤ most) : (st.write call).Sound most := by
  have hlow := h.low
  have hhigh := h.high
  rcases write_cases h hmost hline with ⟨-, k, count, hcount, heq⟩ | ⟨-, hfull, heq⟩ |
    ⟨-, hmore, heq⟩
  · rw [heq]
    refine ⟨by simpa using h.current, by dsimp only; omega, by dsimp only; omega,
      fun _ hn => absurd hn (by simp), ?_⟩
    exact h.append_length (by rw [List.length_take]; omega)
  · rw [heq]
    have hmax : (0 : ℤ) < maxFileSize := by decide
    refine ⟨by dsimp only; omega, Int.le_refl 0, hmax, fun _ hn => absurd hn (by simp), ?_⟩
    exact h.append_length hline
  · rw [heq]
    refine ⟨by simpa using h.current, by dsimp only; omega, hmore, ?_, h.append_length hline⟩
    intro n hn
    have hhandle : st.handle = some n := by simpa using hn
    obtain ⟨hcur, hlen⟩ := h.opened n hhandle
    refine ⟨by simpa using hcur, ?_⟩
    dsimp only [LogFiles.append]
    rw [hhandle]
    dsimp only
    rw [Function.update_self, List.length_append]
    omega

/-- One call. -/
theorem LogFiles.Sound.step (h : st.Sound most) (hmost : most ≤ 2147473407)
    (hline : call.line.length ≤ most) : (logStep st call).1.Sound most := by
  rw [logStep]
  rcases @logToFilelog_cases st call h.current with ⟨n, -, heq⟩ | ⟨-, -, heq⟩ | ⟨-, -, heq⟩
  · rw [heq]
    exact h.write hmost hline
  · rw [heq]
    exact h.opened_file.write hmost hline
  · rw [heq]
    exact h

end Sound

/-- The files hold the end of what was logged: all of it, or more than fits one file. -/
structure LogFiles.Retains (log : List UInt8) (st : LogFiles) : Prop where
  suffix : st.retained <:+ log
  opened : ∀ n ∈ st.handle, ((st.files n).length : ℤ) = st.fileByteCount ∧
    (maxFileSize ≤ (st.files (1 - n)).length ∨ st.retained = log)
  closed : st.handle = none → maxFileSize ≤ (st.files (1 - st.currentFileNo)).length ∨
    (log = [] ∧ st.files (1 - st.currentFileNo) = [])

section Retains

variable {log : List UInt8}

theorem LogFiles.Retains.start : LogFiles.start.Retains [] where
  suffix := List.suffix_refl []
  opened := fun _ hn => nomatch hn
  closed := fun _ => .inr ⟨rfl, rfl⟩

/-- At least as much is retained as fits one file. -/
theorem LogFiles.Retains.length_le (h : st.Retains log) :
    min maxFileSize log.length ≤ st.retained.length := by
  cases hhandle : st.handle with
  | some n =>
    obtain ⟨-, hfull | hall⟩ := h.opened n hhandle
    · simp only [LogFiles.retained, hhandle, List.length_append]
      omega
    · rw [hall]
      exact Nat.min_le_right _ _
  | none =>
    rcases h.closed hhandle with hfull | ⟨hlog, -⟩
    · simp only [LogFiles.retained, hhandle, List.length_append]
      omega
    · simp [hlog]

/-- A file that is opened loses what is older than the other one. -/
theorem LogFiles.Retains.open_file (h : st.Retains log) (hsound : st.Sound most)
    (hnone : st.handle = none) (hzero : st.fileByteCount = 0) :
    (openFile true st).2.Retains log := by
  have hcur := hsound.current
  have hother : 1 - st.currentFileNo ≠ st.currentFileNo := by omega
  have hsuffix := h.suffix
  rw [LogFiles.retained, hnone] at hsuffix
  rw [openFile_opens hcur]
  have hretained : LogFiles.retained { st with
      files := Function.update st.files st.currentFileNo []
      handle := some st.currentFileNo } = st.files (1 - st.currentFileNo) := by
    simp [LogFiles.retained, Function.update_of_ne hother]
  refine ⟨?_, ?_, fun hno => nomatch hno⟩
  · rw [hretained]
    exact (List.suffix_append _ _).trans hsuffix
  · intro n hn
    obtain rfl := Option.some.inj hn
    rw [hretained]
    dsimp only
    rw [Function.update_self, Function.update_of_ne hother]
    refine ⟨by simp [hzero], ?_⟩
    rcases h.closed hnone with hfull | ⟨hlog, hempty⟩
    · exact .inl hfull
    · exact .inr (by rw [hempty, hlog])

/-- A line that is written as a whole. -/
theorem LogFiles.Retains.write (h : st.Retains log) (hsound : st.Sound most)
    (hopen : st.handle = some st.currentFileNo) (hmost : most ≤ 2147473407)
    (hline : call.line.length ≤ most) (hwhole : call.written = .whole) :
    (st.write call).Retains (log ++ call.line) ∧
      ((st.write call).handle = none → (st.write call).fileByteCount = 0) := by
  have hcur := hsound.current
  have hother : 1 - st.currentFileNo ≠ st.currentFileNo := by omega
  obtain ⟨hcount, holder⟩ := h.opened _ hopen
  have hsuffix := h.suffix
  simp only [LogFiles.retained, hopen] at hsuffix holder
  have happend : st.append call.line = { st with
      files := Function.update st.files st.currentFileNo
        (st.files st.currentFileNo ++ call.line) } := by
    simp only [LogFiles.append, hopen]
  have hnext : st.files (1 - st.currentFileNo) ++ (st.files st.currentFileNo ++ call.line) <:+
      log ++ call.line := by
    obtain ⟨front, hfront⟩ := hsuffix
    exact ⟨front, by rw [← hfront]; simp only [List.append_assoc]⟩
  rcases write_cases hsound hmost hline with ⟨hnot, -⟩ | ⟨-, hfull, heq⟩ | ⟨-, hmore, heq⟩
  · exact absurd hwhole hnot
  · have hthis : (st.currentFileNo + 1) % 2 = 1 - st.currentFileNo := by omega
    have hback : 1 - (1 - st.currentFileNo) = st.currentFileNo := by omega
    have hlength : maxFileSize ≤ (st.files st.currentFileNo ++ call.line).length := by
      rw [List.length_append]
      omega
    rw [heq, happend]
    refine ⟨⟨?_, fun _ hn => (nomatch hn), fun _ => .inl ?_⟩, fun _ => rfl⟩
    · simpa only [LogFiles.retained, hthis, hback, Function.update_self,
        Function.update_of_ne hother] using hnext
    · simpa only [hthis, hback, Function.update_self] using hlength
  · rw [heq, happend]
    have hstays : ∀ {p : Prop}, st.handle = none → p := fun hno => nomatch hopen.symm.trans hno
    refine ⟨⟨?_, ?_, hstays⟩, hstays⟩
    · simpa only [LogFiles.retained, hopen, Function.update_self,
        Function.update_of_ne hother] using hnext
    · intro n hn
      obtain rfl := Option.some.inj (hopen.symm.trans hn)
      simp only [LogFiles.retained, hopen, Function.update_self, Function.update_of_ne hother]
      refine ⟨by rw [List.length_append]; omega, ?_⟩
      rcases holder with hfull | hall
      · exact .inl hfull
      · exact .inr (by rw [← hall, List.append_assoc])

/-- One call whose line is not lost on the way to the file. -/
theorem LogFiles.Retains.step (h : st.Retains log) (hsound : st.Sound most)
    (hzero : st.handle = none → st.fileByteCount = 0) (hmost : most ≤ 2147473407)
    (hline : call.line.length ≤ most) (hwhole : call.written = .whole) :
    (logStep st call).1.Retains (log ++ (logStep st call).2.flatten) ∧
      ((logStep st call).1.handle = none → (logStep st call).1.fileByteCount = 0) := by
  rw [logStep]
  rcases @logToFilelog_cases st call hsound.current with
    ⟨n, hhandle, heq⟩ | ⟨hnone, hopens, heq⟩ | ⟨hnone, hopens, heq⟩
  · obtain ⟨rfl, -⟩ := hsound.opened n hhandle
    have hwrite := h.write hsound hhandle hmost hline hwhole
    simpa [heq, hhandle] using hwrite
  · have hopened : (openFile true st).2.handle = some (openFile true st).2.currentFileNo := by
      rw [openFile_opens hsound.current]
    have hwrite := (h.open_file hsound hnone (hzero hnone)).write hsound.opened_file hopened hmost
      hline hwhole
    simpa [heq, hopens] using hwrite
  · simpa [heq, hnone, hopens] using And.intro h (hzero hnone)

end Retains

/-- In every run, whatever calls of the C library fail, no log file gets longer than a full
one with one more line. As long as no line fails that has a file to go to, the two files hold
the end of what was logged without a gap, and at least the last 10240 bytes of it. -/
theorem logFiles_bounded_retained (hmost : most ≤ 2147473407)
    (hlines : ∀ call ∈ calls, call.line.length ≤ most) :
    (∀ n, ((Runs.run logStep .start calls).1.files n).length < maxFileSize + most) ∧
      ((∀ call ∈ calls, call.written = .whole) →
        (Runs.run logStep .start calls).1.retained <:+
            (Runs.run logStep .start calls).2.flatten ∧
          min maxFileSize (Runs.run logStep .start calls).2.flatten.length ≤
            (Runs.run logStep .start calls).1.retained.length) := by
  have hstart : LogFiles.start.Sound most :=
    ⟨Nat.zero_le 1, Int.le_refl 0, by decide, fun _ hn => (nomatch hn),
      fun _ => Nat.lt_of_lt_of_le (by decide : 0 < maxFileSize) (Nat.le_add_right _ _)⟩
  constructor
  · have hsound := Runs.invariant (fun hs hline => hs.step hmost hline) hstart
      (Runs.meets_of_forall (fun _ => hlines) _)
    exact hsound.length
  · intro hwhole
    have hrun : ∀ st log, st.Sound most → st.Retains log →
        (st.handle = none → st.fileByteCount = 0) →
        (Runs.run logStep st calls).1.Retains
          (log ++ (Runs.run logStep st calls).2.flatten) := by
      induction calls with
      | nil =>
        intro st log _ hretains _
        simpa [Runs.run] using hretains
      | cons call calls ih =>
        intro st log hsound hretains hzero
        obtain ⟨hnext, hzero'⟩ := hretains.step hsound hzero hmost
          (hlines call List.mem_cons_self) (hwhole call List.mem_cons_self)
        have hrest := ih (fun c hc => hlines c (List.mem_cons_of_mem call hc))
          (fun c hc => hwhole c (List.mem_cons_of_mem call hc)) _ _
          (hsound.step hmost (hlines call List.mem_cons_self)) hnext hzero'
        rwa [List.append_assoc, ← List.flatten_append] at hrest
    have hretains := hrun .start [] hstart .start fun _ => rfl
    rw [List.nil_append] at hretains
    exact ⟨hretains.suffix, hretains.length_le⟩

/-- Three lines of 6000 bytes: the file is changed behind the second, and opened for the
third; the fourth is not printed. -/
theorem logFiles_bounded_retained_three :
    (∀ n, ((Runs.run logStep .start (List.replicate 3 ⟨List.replicate 6000 65, true, .whole⟩ ++
        [⟨List.replicate 6000 66, true, .printFails 7⟩])).1.files n).length < 16240) ∧
      min 10240 (Runs.run logStep .start
          (List.replicate 3 ⟨List.replicate 6000 65, true, .whole⟩)).2.flatten.length ≤
        (Runs.run logStep .start
          (List.replicate 3 ⟨List.replicate 6000 65, true, .whole⟩)).1.retained.length :=
  ⟨(@logFiles_bounded_retained 6000 _ (by decide) (by decide +kernel)).1,
    ((@logFiles_bounded_retained 6000 _ (by decide) (by decide +kernel)).2 (by decide +kernel)).2⟩

end TestMac
