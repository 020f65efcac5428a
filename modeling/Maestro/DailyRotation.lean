import Maestro.DailySnapshot
import Maestro.RetentionSelection

/-! What a call of `create_daily_snapshot` leaves in the directory, wherever it stops. A power
loss that takes the last unsynced changes with it leaves what an earlier stop does. -/
namespace Maestro.Backup
open Interleaving Prog Files Redaction

section Statements
variable (valid : Bytes → Bool)

def SevenNewer (d : Folder) (date : NaiveDate) : Prop :=
  ∃ newer : List NaiveDate, newer.length = dailySnapshots ∧ newer.Nodup ∧
    ∀ other ∈ newer, date.key < other.key ∧ verified valid d (snapshotFilename other) = true

def RotatedOut (before d : Folder) (name : Bytes) : Prop :=
  d.lookup name = none ∧ verified valid before name = true ∧
    ∃ date, parseSnapshotFilename name = some date ∧ SevenNewer valid d date

/-- A file that SQLite keeps beside a snapshot or a temporary file. -/
def Beside (name : Bytes) : Prop :=
  ∃ database, name ∈ companions database ∧
    ((∃ date, database = snapshotFilename date) ∨ ∃ random, database = temporaryFilename random)

def Rotated (before d : Folder) : Prop :=
  ∀ name, d.lookup name = before.lookup name ∨ Beside name ∨ RotatedOut valid before d name

/-- A stale temporary file, or a name that one may be created under. -/
def Temporary (before : Folder) (name : Bytes) : Prop :=
  (isOwnedTemporaryName name = true ∧
      ∃ node, before.lookup name = some node ∧ node.kind = .regular ∧ node.stale = true) ∨
    (∃ random, name = temporaryFilename random) ∧ before.lookup name = none

/-- The snapshot of the date is there, or the rotation had no place for it. -/
def Kept (date : NaiveDate) (d : Folder) : Prop :=
  verified valid d (snapshotFilename date) = true ∨ SevenNewer valid d date

/-- Nothing is in the way of the snapshot but a verified one. -/
def Replaceable (date : NaiveDate) (before : Folder) : Prop :=
  before.lookup (snapshotFilename date) = none ∨ verified valid before (snapshotFilename date) = true

/-- What became of the snapshot of the date: nothing, or a verified one in its place, or the
rotation took it. -/
def Replaced (date : NaiveDate) (before d : Folder) : Prop :=
  Replaceable valid date before ∧
    (verified valid d (snapshotFilename date) = true ∨
      d.lookup (snapshotFilename date) = none ∧ SevenNewer valid d date)

structure Course (date : NaiveDate) (before d : Folder) : Prop where
  own : d.lookup (snapshotFilename date) = before.lookup (snapshotFilename date) ∨ Replaced valid date before d
  others : ∀ name, name ≠ snapshotFilename date →
    d.lookup name = before.lookup name ∨ Beside name ∨ Temporary before name ∨ RotatedOut valid before d name

/-- The snapshot that the call names is there when it returns. -/
def Returned (date : NaiveDate) (result : Option BackupResult) (d : Folder) : Prop :=
  ∀ r, result = some r → r.snapshot = snapshotFilename date ∧ Kept valid date d

end Statements

theorem digitValue (n : Nat) : value (digit n) = some (n % 10) := by
  have small : n % 10 < 10 := Nat.mod_lt n (by decide)
  unfold digit
  generalize n % 10 = k at small
  revert k
  decide

theorem yearTextShort {year : Int} (short : (yearText year).length ≤ 4) : 0 ≤ year ∧ year ≤ 9999 := by
  unfold yearText at short
  split at short
  · assumption
  · simp only [List.length_cons, List.length_append, List.length_replicate] at short
    omega

theorem formatYear {date : NaiveDate} (fits : date.format.length = 10) : 0 ≤ date.year ∧ date.year ≤ 9999 := by
  refine yearTextShort ?_
  simp [NaiveDate.format, twoDigits] at fits
  omega

theorem roundTrip {date : NaiveDate} (fits : date.format.length = 10) : parseDate date.format = some date := by
  obtain ⟨low, high⟩ := formatYear fits
  obtain ⟨year, month, day, real⟩ := date
  obtain ⟨y, rfl⟩ := Int.eq_ofNat_of_zero_le low
  have months : month ≤ 12 := real.2.1.2
  have days : day ≤ 31 := by
    refine Nat.le_trans real.2.2.2 ?_
    unfold daysIn
    split_ifs <;> omega
  have small : (y : Int) ≤ 9999 := high
  have yearBack : (y : Int) / 1000 % 10 * 1000 + (y : Int) / 100 % 10 * 100 + (y : Int) / 10 % 10 * 10 + (y : Int) % 10 = y := by
    omega
  have monthBack : month / 10 % 10 * 10 + month % 10 = month := by omega
  have dayBack : day / 10 % 10 * 10 + day % 10 = day := by omega
  simp [NaiveDate.format, yearText, low, high, fourDigits, twoDigits, parseDate, digitValue, yearBack, monthBack,
    dayBack, real]

theorem keyInjective {a b : NaiveDate} (same : a.key = b.key) : a = b := by
  obtain ⟨y, m, d, _⟩ := a
  obtain ⟨y', m', d', _⟩ := b
  simpa [NaiveDate.key] using same

theorem droppedPrefix {text front rest : Bytes} (dropped : text.dropPrefix? front = some rest) : text = front ++ rest := by
  obtain ⟨_, same, equal⟩ := List.dropPrefix?_eq_some_iff.mp dropped
  rw [same, eq_of_beq equal]

theorem droppedSuffix {text back rest : Bytes} (dropped : text.dropSuffix? back = some rest) : text = rest ++ back := by
  obtain ⟨_, same, equal⟩ := List.dropSuffix?_eq_some_iff.mp dropped
  rw [same, eq_of_beq equal]

theorem parsedName {name : Bytes} {date} (parsed : parseSnapshotFilename name = some date) :
    name = snapshotFilename date ∧ date.format.length = 10 := by
  simp only [parseSnapshotFilename, Option.bind_eq_bind, Option.bind_eq_some_iff] at parsed
  obtain ⟨_, _, rest, front, text, back, parsed⟩ := parsed
  split at parsed
  · contradiction
  · rename_i fits
    obtain ⟨found, _, parsed⟩ := Option.bind_eq_some_iff.mp parsed
    split at parsed
    · rename_i same
      cases Option.some.inj parsed
      subst same
      refine ⟨?_, by simpa using fits⟩
      rw [droppedPrefix front, droppedSuffix back, snapshotFilename, List.append_assoc]
    · contradiction

theorem parsedOwn {date date' : NaiveDate} (parsed : parseSnapshotFilename (snapshotFilename date) = some date') :
    date' = date := by
  obtain ⟨same, fits⟩ := parsedName parsed
  have texts : date.format = date'.format := by simpa [snapshotFilename] using same
  have back := roundTrip (texts ▸ fits)
  rw [texts, roundTrip fits] at back
  exact Option.some.inj back

theorem dotted {rest : Bytes} {date} : temporaryPrefix ++ rest ≠ snapshotFilename date := by
  intro same
  have first : (temporaryPrefix ++ rest).head? = some 0x2E := rfl
  have own : (snapshotFilename date).head? = some 0x6D := rfl
  rw [same, own] at first
  exact absurd first (by decide)

theorem ownedNot {name : Bytes} {date} (owned : isOwnedTemporaryName name = true) : name ≠ snapshotFilename date := by
  unfold isOwnedTemporaryName at owned
  split at owned
  · rename_i found
    obtain ⟨rest, front, _⟩ := Option.bind_eq_some_iff.mp found
    rw [droppedPrefix front]
    exact dotted
  · contradiction

theorem temporaryNot {before : Folder} {name : Bytes} {date} (temporary : Temporary before name) :
    name ≠ snapshotFilename date := by
  obtain ⟨owned, _⟩ | ⟨⟨random, rfl⟩, _⟩ := temporary
  · exact ownedNot owned
  · rw [temporaryFilename, List.append_assoc]
    exact dotted

theorem companionLast {database name : Bytes} (companion : name ∈ companions database) :
    name.getLast? = some 0x6C ∨ name.getLast? = some 0x6D := by
  have last : ∀ text : Bytes, text ≠ [] → (database ++ text).getLast? = text.getLast? :=
    fun text some' => List.getLast?_append_of_ne_nil _ some'
  simp only [companions, List.mem_cons, List.not_mem_nil, or_false] at companion
  rcases companion with rfl | rfl | rfl
  · exact .inl (last _ (by decide))
  · exact .inr (last _ (by decide))
  · exact .inl (last _ (by decide))

theorem snapshotLast (date : NaiveDate) : (snapshotFilename date).getLast? = some 0x72 := by
  rw [snapshotFilename, List.getLast?_append_of_ne_nil _ (by decide)]
  decide

theorem temporaryLast {rest : Bytes} : (rest ++ temporarySuffix).getLast? = some 0x70 := by
  rw [List.getLast?_append_of_ne_nil _ (by decide)]
  decide

theorem companionSnapshot {database name : Bytes} {date} (companion : name ∈ companions database) :
    name ≠ snapshotFilename date := fun same => by
  have last := companionLast companion
  rw [same, snapshotLast] at last
  revert last
  decide

theorem companionTemporary {database rest : Bytes} : rest ++ temporarySuffix ∉ companions database := fun companion => by
  have last := companionLast companion
  rw [temporaryLast] at last
  revert last
  decide

theorem besideNot {name : Bytes} {date} (beside : Beside name) : name ≠ snapshotFilename date :=
  companionSnapshot beside.choose_spec.1

theorem ownedBeside {name : Bytes} (owned : isOwnedTemporaryName name = true) : ¬ Beside name := by
  intro beside
  unfold isOwnedTemporaryName at owned
  split at owned
  · rename_i found
    obtain ⟨rest, front, back⟩ := Option.bind_eq_some_iff.mp found
    obtain ⟨database, companion, -⟩ := beside
    rw [droppedPrefix front, droppedSuffix back, ← List.append_assoc] at companion
    exact companionTemporary companion
  · contradiction

section Actions
variable {valid : Bytes → Bool} {choice : Choice} {d d' : Folder} {name : Bytes}

def Act.Quiet : Act → Prop
  | .verifySnapshot _ | .createNew _ | .createOnlineBackup _ | .rename _ _ | .removeFile _ => False
  | _ => True

theorem appliedQuiet {o : Act} {answer} (quiet : o.Quiet) (applied : apply valid o choice d = some (answer, d')) : d = d' := by
  cases o with
  | readDir | fillBytes =>
    simp only [apply] at applied
    split at applied
    · exact congrArg Prod.snd (Option.some.inj applied)
    · contradiction
  | verifySnapshot | createNew | createOnlineBackup | rename | removeFile => exact quiet.elim
  | _ => exact congrArg Prod.snd (Option.some.inj applied)

theorem appliedReadDir {names} (applied : apply valid .readDir choice d = some (some names, d')) :
    (names.filterMap id).Nodup := by
  simp only [apply] at applied
  split at applied
  · rename_i perm
    have nodup : choice.listing.Nodup := perm.nodup_iff.mpr d.nodupKeys
    have listed := congrArg Prod.fst (Option.some.inj applied)
    simp only at listed
    split at listed
    · contradiction
    · cases Option.some.inj listed
      have taken : ((choice.listing.take choice.read).map some).filterMap id = choice.listing.take choice.read := by
        simp [List.filterMap_map]
      rw [List.filterMap_append, taken]
      split_ifs <;> simpa using nodup.sublist (List.take_sublist _ _)
  · contradiction

theorem appliedMetadata {node} (applied : apply valid (.symlinkMetadata name) choice d = some (.found node, d')) :
    d.lookup name = some node := by
  have answer := congrArg Prod.fst (Option.some.inj applied)
  simp only at answer
  split_ifs at answer
  split at answer
  · contradiction
  · rename_i found
    cases answer
    exact found

theorem appliedMissing (applied : apply valid (.symlinkMetadata name) choice d = some (.missing, d')) :
    d.lookup name = none := by
  have answer := congrArg Prod.fst (Option.some.inj applied)
  simp only at answer
  split_ifs at answer
  split at answer
  · assumption
  · contradiction

theorem appliedVerify (applied : apply valid (.verifySnapshot name) choice d = some (true, d')) :
    verified valid d name = true := by
  have answer : (!choice.fails && verified valid d name) = true := congrArg Prod.fst (Option.some.inj applied)
  exact (Bool.and_eq_true_iff.mp answer).2

theorem appliedCreate {answer} (applied : apply valid (.createNew name) choice d = some (answer, d')) :
    d' = d ∧ answer ≠ .created ∨ d.lookup name = none ∧ d' = d.insert name ⟨.regular, [], false⟩ := by
  simp only [apply] at applied
  split_ifs at applied
  · cases applied
    exact .inl ⟨rfl, nofun⟩
  · split at applied
    · cases applied
      exact .inl ⟨rfl, nofun⟩
    · rename_i free
      cases applied
      exact .inr ⟨free, rfl⟩

theorem settleElsewhere {beside : Bytes → Option (Option Node)} {other : Bytes} (apart : other ≠ name) :
    (settle beside d name).lookup other = d.lookup other := by
  unfold settle
  split
  · rfl
  · exact AList.lookup_erase_ne apart
  · exact AList.lookup_insert_ne apart

theorem connectedElsewhere {other : Bytes} (apart : other ∉ companions name) :
    (connected choice name d).lookup other = d.lookup other := by
  unfold connected
  generalize companions name = names at apart
  induction names generalizing d with
  | nil => rfl
  | cons first rest ih =>
    rw [List.mem_cons, not_or] at apart
    rw [List.foldl_cons, ih apart.2, settleElsewhere apart.1]

theorem appliedBeside {answer} (applied : apply valid (.verifySnapshot name) choice d = some (answer, d'))
    {other : Bytes} (apart : other ∉ companions name) : d'.lookup other = d.lookup other := by
  cases Option.some.inj applied
  split
  · exact connectedElsewhere apart
  · rfl

theorem appliedBackup {answer} (applied : apply valid (.createOnlineBackup name) choice d = some (answer, d'))
    {other : Bytes} (apart : other ∉ companions name) : other = name ∨ d'.lookup other = d.lookup other := by
  simp only [apply] at applied
  split at applied
  · cases applied
    by_cases same : other = name
    · exact .inl same
    · exact .inr ((connectedElsewhere apart).trans (AList.lookup_insert_ne same))
  · cases applied
    exact .inr rfl

theorem appliedRename {temporary} {answer} (applied : apply valid (.rename temporary name) choice d = some (answer, d')) :
    answer = false ∧ d' = d ∨ ∃ node, d.lookup temporary = some node ∧ d' = (d.erase temporary).insert name node := by
  simp only [apply] at applied
  split at applied
  · rename_i node _ found
    split_ifs at applied
    · cases applied
      exact .inl ⟨rfl, rfl⟩
    · cases applied
      exact .inr ⟨node, found, rfl⟩
  · cases applied
    exact .inl ⟨rfl, rfl⟩

theorem appliedRemove {answer} (applied : apply valid (.removeFile name) choice d = some (answer, d')) :
    d' = d ∨ d' = d.erase name := by
  simp only [apply] at applied
  split at applied
  · split_ifs at applied
    · cases applied
      exact .inl rfl
    · cases applied
      exact .inr rfl
  · cases applied
    exact .inl rfl

end Actions

section Rotation
variable {valid : Bytes → Bool} {before d : Folder} {name : Bytes} {date : NaiveDate}
  {candidates : List (NaiveDate × Bytes)} {gone : List Bytes}

theorem verifiedSame (same : d.lookup name = before.lookup name) : verified valid d name = verified valid before name := by
  simp only [verified, same]

/-- Some of `gone` are removed, and nothing else. -/
def Removing (gone : List Bytes) (before d : Folder) : Prop :=
  ∀ name, d.lookup name = before.lookup name ∨ Beside name ∨ name ∈ gone ∧ d.lookup name = none

def Aside (before d : Folder) : Prop := ∀ name, d.lookup name = before.lookup name ∨ Beside name

theorem asideOwn (aside : Aside before d) : d.lookup (snapshotFilename date) = before.lookup (snapshotFilename date) :=
  (aside _).resolve_right fun beside => besideNot beside rfl

theorem asideVerify {choice : Choice} {answer} {d' : Folder} (aside : Aside before d)
    (applied : apply valid (.verifySnapshot (snapshotFilename date)) choice d = some (answer, d')) : Aside before d' := by
  intro other
  by_cases companion : other ∈ companions (snapshotFilename date)
  · exact .inr ⟨_, companion, .inl ⟨date, rfl⟩⟩
  · rw [appliedBeside applied companion]
    exact aside other

/-- The candidates of a rotation of `d`. -/
def Trusted (valid : Bytes → Bool) (d : Folder) (candidates : List (NaiveDate × Bytes)) : Prop :=
  ∀ candidate ∈ candidates, parseSnapshotFilename candidate.2 = some candidate.1 ∧ verified valid d candidate.2 = true

theorem removingErase (removing : Removing gone before d) (mem : name ∈ gone) : Removing gone before (d.erase name) := by
  intro other
  by_cases same : other = name
  · subst same
    exact .inr (.inr ⟨mem, AList.lookup_erase _ _⟩)
  · rw [AList.lookup_erase_ne same]
    exact removing other

theorem removeAllRemoving : ∀ (names removed : List Bytes) (d : Folder), (∀ name ∈ names, name ∈ gone) →
    Removing gone before d →
    Survives (apply valid) (Removing gone before) (fun _ _ => True) (removeAll names removed) d
  | [], _, _, _, removing => ⟨removing, trivial⟩
  | name :: rest, removed, d, inside, removing => by
    refine ⟨removing, fun choice answer d' applied => ?_⟩
    have next : Removing gone before d' := by
      obtain rfl | rfl := appliedRemove applied
      · exact removing
      · exact removingErase removing (inside name List.mem_cons_self)
    cases answer with
    | false => exact ⟨next, trivial⟩
    | true => exact removeAllRemoving rest _ _ (fun other mem => inside other (List.mem_cons_of_mem _ mem)) next

theorem gatherTrusted : ∀ (entries : List (Option Bytes)) (candidates : List (NaiveDate × Bytes)) (skipped : List Bytes)
    (d : Folder), Aside before d → Trusted valid before candidates →
    (candidates.map (·.2) ++ entries.filterMap id).Nodup →
    Survives (apply valid) (Aside before)
      (fun result _ => ∀ found, result = some found → Trusted valid before found.1 ∧ (found.1.map (·.2)).Nodup)
      (gather entries candidates skipped) d
  | [], candidates, skipped, d, aside, trusted, apart => by
    refine ⟨aside, fun found same => ?_⟩
    cases same
    exact ⟨trusted, by simpa using apart⟩
  | none :: rest, candidates, skipped, d, aside, trusted, apart => ⟨aside, nofun⟩
  | some name :: rest, candidates, skipped, d, aside, trusted, apart => by
    have fewer : (candidates.map (·.2) ++ rest.filterMap id).Nodup :=
      apart.sublist ((List.sublist_cons_self name _).append_left _)
    simp only [gather, perform, actBind, doneBind]
    split
    · exact gatherTrusted rest _ _ d aside trusted fewer
    · rename_i date parsed
      refine ⟨aside, fun choice answer d' applied => ?_⟩
      obtain rfl := appliedQuiet (o := .symlinkMetadata name) trivial applied
      cases answer with
      | missing => exact ⟨aside, nofun⟩
      | failed => exact ⟨aside, nofun⟩
      | found node =>
        simp only
        split
        · refine ⟨aside, fun choice answer d' applied => ?_⟩
          obtain ⟨rfl, -⟩ := parsedName parsed
          have aside' := asideVerify aside applied
          cases answer with
          | false => exact gatherTrusted rest _ _ d' aside' trusted fewer
          | true =>
            refine gatherTrusted rest _ _ d' aside' ?_ (by simpa using apart)
            intro candidate mem
            obtain old | new := List.mem_append.mp mem
            · exact trusted candidate old
            · obtain rfl := List.mem_singleton.mp new
              exact ⟨parsed, (verifiedSame (asideOwn aside)).symm.trans (appliedVerify applied)⟩
        · exact gatherTrusted rest _ _ d aside trusted fewer

theorem newestLater {older newer : NaiveDate × Bytes} (trusted : Trusted valid before candidates)
    (apart : (candidates.map (·.2)).Nodup) (kept : newer ∈ (newestFirst candidates).take dailySnapshots)
    (out : older ∈ (newestFirst candidates).drop dailySnapshots) : older.1.key < newer.1.key := by
  have perm : (newestFirst candidates).Perm candidates := Retention.sortPerm
  have sorted : (newestFirst candidates).Pairwise
      fun a b => OrderDual.toDual a.1.key ≤ OrderDual.toDual b.1.key := Retention.sortSorted candidates
  have names : ((newestFirst candidates).map (·.2)).Nodup := (perm.map _).nodup_iff.mpr apart
  rw [← List.take_append_drop dailySnapshots (newestFirst candidates)] at names
  rw [← List.take_append_drop dailySnapshots (newestFirst candidates)] at sorted
  have order : older.1.key ≤ newer.1.key := (List.pairwise_append.mp sorted).2.2 newer kept older out
  refine lt_of_le_of_ne order fun same => ?_
  rw [List.map_append] at names
  refine (List.nodup_append.mp names).2.2 _ (List.mem_map_of_mem kept) _ (List.mem_map_of_mem out) ?_
  have first := (parsedName (trusted newer (perm.mem_iff.mp (List.mem_of_mem_take kept))).1).1
  have second := (parsedName (trusted older (perm.mem_iff.mp (List.mem_of_mem_drop out))).1).1
  rw [first, second, keyInjective same]

theorem droppedRotated (trusted : Trusted valid before candidates) (apart : (candidates.map (·.2)).Nodup)
    (removing : Removing (((newestFirst candidates).drop dailySnapshots).map (·.2)) before d) : Rotated valid before d := by
  have perm : (newestFirst candidates).Perm candidates := Retention.sortPerm
  have names : ((newestFirst candidates).map (·.2)).Nodup := (perm.map _).nodup_iff.mpr apart
  rw [← List.take_append_drop dailySnapshots (newestFirst candidates), List.map_append] at names
  have inside : ∀ candidate ∈ (newestFirst candidates).take dailySnapshots, candidate ∈ candidates :=
    fun candidate mem => perm.mem_iff.mp (List.mem_of_mem_take mem)
  intro name
  refine (removing name).imp id (Or.imp id fun ⟨mem, absent⟩ => ?_)
  obtain ⟨older, out, rfl⟩ := List.mem_map.mp mem
  have old := trusted older (perm.mem_iff.mp (List.mem_of_mem_drop out))
  refine ⟨absent, old.2, older.1, old.1, ((newestFirst candidates).take dailySnapshots).map (·.1), ?_, ?_, ?_⟩
  · have long := List.length_pos_of_mem out
    rw [List.length_drop] at long
    rw [List.length_map, List.length_take]
    omega
  · refine List.Nodup.of_map snapshotFilename ?_
    have named : ((newestFirst candidates).take dailySnapshots).map (snapshotFilename ∘ (·.1)) =
        ((newestFirst candidates).take dailySnapshots).map (·.2) :=
      List.map_congr_left fun candidate mem => (parsedName (trusted candidate (inside candidate mem)).1).1.symm
    rw [List.map_map, named]
    exact (List.nodup_append.mp names).1
  · intro other mem
    obtain ⟨newer, kept, rfl⟩ := List.mem_map.mp mem
    have new := trusted newer (inside newer kept)
    refine ⟨newestLater trusted apart kept out, ?_⟩
    have stays : d.lookup newer.2 = before.lookup newer.2 := by
      rcases removing newer.2 with same | beside | ⟨dropped, -⟩
      · exact same
      · exact absurd (parsedName new.1).1 (besideNot beside)
      · exact absurd rfl ((List.nodup_append.mp names).2.2 _ (List.mem_map_of_mem kept) _ dropped)
    rw [← (parsedName new.1).1, verifiedSame stays]
    exact new.2

theorem asideRotated (aside : Aside before d) : Rotated valid before d := fun name => (aside name).imp_right .inl

theorem rotatedHere : Rotated valid before before := fun _ => .inl rfl

theorem rotateRotated (before : Folder) :
    Survives (apply valid) (Rotated valid before) (fun _ _ => True) rotate before := by
  simp only [rotate, perform, actBind, doneBind]
  refine ⟨rotatedHere, fun choice answer d applied => ?_⟩
  obtain rfl := appliedQuiet (o := .prepareDirectory) trivial applied
  cases answer with
  | false => exact ⟨rotatedHere, trivial⟩
  | true =>
    refine ⟨rotatedHere, fun choice answer d applied => ?_⟩
    obtain rfl := appliedQuiet (o := .readDir) trivial applied
    cases answer with
    | none => exact ⟨rotatedHere, trivial⟩
    | some names =>
      refine survivesBind (survivesMono
        (gatherTrusted names [] [] _ (fun _ => .inl rfl) (by simp [Trusted]) (by simpa using appliedReadDir applied))
        (fun _ aside => asideRotated aside) fun _ _ aside found => And.intro aside found) ?_
      intro found d rotated ⟨aside, good⟩
      cases found with
      | none => exact ⟨rotated, trivial⟩
      | some found =>
        obtain ⟨trusted, apart⟩ := good found rfl
        refine survivesBind (survivesMono
          (removeAllRemoving _ [] _ (fun _ mem => mem) fun name => (aside name).imp_right .inl)
          (fun _ removing => droppedRotated trusted apart removing) fun _ _ _ _ => trivial) ?_
        intro removed d' rotated _
        cases removed with
        | none => exact ⟨rotated, trivial⟩
        | some removed =>
          simp only
          split
          · exact ⟨rotated, trivial⟩
          · refine ⟨rotated, fun choice answer d'' applied => ?_⟩
            obtain rfl := appliedQuiet (o := .syncDirectory) trivial applied
            cases answer with
            | false => exact ⟨rotated, trivial⟩
            | true => exact ⟨rotated, trivial⟩

end Rotation

section Snapshot
variable {valid : Bytes → Bool} {before d : Folder} {name temporary : Bytes} {date : NaiveDate} {existed : Bool}

def Tidied (before d : Folder) : Prop :=
  ∀ name, d.lookup name = before.lookup name ∨ Beside name ∨ Temporary before name

theorem tidiedHere : Tidied before before := fun _ => .inl rfl

theorem tidiedErase (tidied : Tidied before d) (own : Temporary before name) : Tidied before (d.erase name) := by
  intro other
  by_cases same : other = name
  · exact .inr (.inr (same ▸ own))
  · rw [AList.lookup_erase_ne same]
    exact tidied other

theorem tidiedInsert {node : Node} (tidied : Tidied before d) (own : Temporary before name) :
    Tidied before (d.insert name node) := by
  intro other
  by_cases same : other = name
  · exact .inr (.inr (same ▸ own))
  · rw [AList.lookup_insert_ne same]
    exact tidied other

theorem tidiedBeside {d' : Folder} {database : Bytes} (tidied : Tidied before d)
    (known : (∃ date, database = snapshotFilename date) ∨ ∃ random, database = temporaryFilename random)
    (same : ∀ other, other ∉ companions database → Temporary before other ∨ d'.lookup other = d.lookup other) :
    Tidied before d' := by
  intro other
  by_cases companion : other ∈ companions database
  · exact .inr (.inl ⟨database, companion, known⟩)
  · rcases same other companion with own | same
    · exact .inr (.inr own)
    · rw [same]
      exact tidied other

theorem tidiedOwn (tidied : Tidied before d) :
    d.lookup (snapshotFilename date) = before.lookup (snapshotFilename date) :=
  (tidied _).resolve_right fun other => other.elim (besideNot · rfl) (temporaryNot · rfl)

theorem tidiedCourse (tidied : Tidied before d) : Course valid date before d :=
  ⟨.inl (tidiedOwn tidied), fun name _ => (tidied name).imp_right (Or.imp_right .inl)⟩

theorem cleanTidied : ∀ (entries : List (Option Bytes)) (removed : Bool) (d : Folder), Tidied before d →
    Survives (apply valid) (Tidied before) (fun _ _ => True) (cleanEntries entries removed) d
  | [], false, _, tidied => ⟨tidied, trivial⟩
  | [], true, d, tidied => by
    refine ⟨tidied, fun choice answer d' applied => ?_⟩
    obtain rfl := appliedQuiet (o := .syncDirectory) trivial applied
    exact ⟨tidied, trivial⟩
  | none :: _, _, _, tidied => ⟨tidied, trivial⟩
  | some name :: rest, removed, d, tidied => by
    simp only [cleanEntries, perform, actBind, doneBind]
    split
    · rename_i owned
      refine ⟨tidied, fun choice answer d' applied => ?_⟩
      obtain rfl := appliedQuiet (o := .symlinkMetadata name) trivial applied
      cases answer with
      | missing => exact ⟨tidied, trivial⟩
      | failed => exact ⟨tidied, trivial⟩
      | found node =>
        simp only
        split
        · rename_i stale
          have own : Temporary before name := by
            obtain same | beside | own := tidied name
            · exact .inl ⟨owned, node, same ▸ appliedMetadata applied, stale⟩
            · exact absurd beside (ownedBeside owned)
            · exact own
          refine ⟨tidied, fun choice answer d' applied => ?_⟩
          have next : Tidied before d' := by
            obtain rfl | rfl := appliedRemove applied
            · exact tidied
            · exact tidiedErase tidied own
          cases answer with
          | false => exact ⟨next, trivial⟩
          | true => exact cleanTidied rest true d' next
        · exact cleanTidied rest removed d tidied
    · exact cleanTidied rest removed d tidied

theorem cleanupTidied : Survives (apply valid) (Tidied before) (fun _ _ => True) cleanupStaleTemporaries before := by
  refine ⟨tidiedHere, fun choice answer d applied => ?_⟩
  obtain rfl := appliedQuiet (o := .readDir) trivial applied
  cases answer with
  | none => exact ⟨tidiedHere, trivial⟩
  | some names => exact cleanTidied names false _ tidiedHere

theorem privateTidied : ∀ (attempts : Nat) (d : Folder), Tidied before d →
    Survives (apply valid) (Tidied before) (fun result _ => ∀ name, result = some name →
        Temporary before name ∧ ∃ random, name = temporaryFilename random)
      (createPrivateTemporary attempts) d
  | 0, _, tidied => ⟨tidied, nofun⟩
  | attempts + 1, d, tidied => by
    refine ⟨tidied, fun choice random d' applied => ?_⟩
    obtain rfl := appliedQuiet (o := .fillBytes) trivial applied
    refine ⟨tidied, fun choice answer d' applied => ?_⟩
    obtain ⟨rfl, failed⟩ | ⟨free, rfl⟩ := appliedCreate applied
    · cases answer with
      | created => exact absurd rfl failed
      | taken => exact privateTidied attempts _ tidied
      | failed => exact ⟨tidied, nofun⟩
    · have own : Temporary before (temporaryFilename random) := by
        obtain same | ⟨_, companion, -⟩ | own := tidied (temporaryFilename random)
        · exact .inr ⟨⟨random, rfl⟩, same ▸ free⟩
        · exact absurd companion companionTemporary
        · exact own
      have next : Tidied before (d.insert (temporaryFilename random) ⟨.regular, [], false⟩) := tidiedInsert tidied own
      cases answer with
      | created =>
        refine ⟨next, fun name same => ?_⟩
        cases same
        exact ⟨own, random, rfl⟩
      | taken => exact privateTidied attempts _ next
      | failed => exact ⟨next, nofun⟩

structure Published (valid : Bytes → Bool) (date : NaiveDate) (before d : Folder) : Prop where
  own : verified valid d (snapshotFilename date) = true
  others : ∀ name, name ≠ snapshotFilename date →
    d.lookup name = before.lookup name ∨ Beside name ∨ Temporary before name

theorem renamePublished {node : Node} (tidied : Tidied before d) (own : Temporary before temporary)
    (sound : verified valid d temporary = true) (found : d.lookup temporary = some node) :
    Published valid date before ((d.erase temporary).insert (snapshotFilename date) node) where
  own := by simpa only [verified, AList.lookup_insert, found] using sound
  others name apart := by
    rw [AList.lookup_insert_ne apart]
    exact tidiedErase tidied own name

theorem rotatedKept {mid : Folder} (published : Published valid date before mid) (rotated : Rotated valid mid d) :
    Kept valid date d := by
  obtain same | beside | ⟨_, _, date', parsed, newer⟩ := rotated (snapshotFilename date)
  · exact .inl ((verifiedSame same).trans published.own)
  · exact absurd rfl (besideNot beside)
  · exact .inr (parsedOwn parsed ▸ newer)

theorem rotatedCourse {mid : Folder} (fits : Replaceable valid date before) (published : Published valid date before mid)
    (rotated : Rotated valid mid d) : Course valid date before d where
  own := by
    refine .inr ⟨fits, ?_⟩
    obtain same | beside | ⟨absent, _, date', parsed, newer⟩ := rotated (snapshotFilename date)
    · exact .inl ((verifiedSame same).trans published.own)
    · exact absurd rfl (besideNot beside)
    · exact .inr ⟨absent, parsedOwn parsed ▸ newer⟩
  others name apart := by
    obtain same | beside | ⟨absent, sound, date', parsed, newer⟩ := rotated name
    · exact (published.others name apart).imp same.trans (Or.imp_right .inl)
    · exact .inr (.inl beside)
    · obtain kept | beside | own := published.others name apart
      · exact .inr (.inr (.inr ⟨absent, verifiedSame kept ▸ sound, date', parsed, newer⟩))
      · exact .inr (.inl beside)
      · exact .inr (.inr (.inl own))

theorem newerErase (newer : SevenNewer valid d date) (own : Temporary before temporary) :
    SevenNewer valid (d.erase temporary) date := by
  obtain ⟨dates, count, apart, later⟩ := newer
  refine ⟨dates, count, apart, fun other mem => ⟨(later other mem).1, ?_⟩⟩
  rw [verifiedSame (AList.lookup_erase_ne (temporaryNot own).symm)]
  exact (later other mem).2

theorem keptErase (kept : Kept valid date d) (own : Temporary before temporary) : Kept valid date (d.erase temporary) :=
  kept.imp ((verifiedSame (AList.lookup_erase_ne (temporaryNot own).symm)).trans ·) (newerErase · own)

theorem courseErase (course : Course valid date before d) (own : Temporary before temporary) :
    Course valid date before (d.erase temporary) where
  own := by
    have same : (d.erase temporary).lookup (snapshotFilename date) = d.lookup (snapshotFilename date) :=
      AList.lookup_erase_ne (temporaryNot own).symm
    refine course.own.imp same.trans fun ⟨fits, now⟩ => ⟨fits, ?_⟩
    exact now.imp (verifiedSame same).trans fun ⟨absent, newer⟩ => ⟨same.trans absent, newerErase newer own⟩
  others name apart := by
    by_cases same : name = temporary
    · exact .inr (.inr (.inl (same ▸ own)))
    · rw [AList.lookup_erase_ne same]
      refine (course.others name apart).imp_right (Or.imp_right (Or.imp_right
        fun ⟨absent, sound, date', parsed, newer⟩ => ?_))
      exact ⟨(AList.lookup_erase_ne same).trans absent, sound, date', parsed, newerErase newer own⟩

theorem publishCourse (tidied : Tidied before d) (own : Temporary before temporary)
    (named : ∃ random, temporary = temporaryFilename random) (fits : Replaceable valid date before) :
    Survives (apply valid) (Course valid date before) (Returned valid date)
      (publishSnapshot temporary (snapshotFilename date) existed) d := by
  simp only [publishSnapshot, perform, actBind, doneBind]
  refine ⟨tidiedCourse tidied, fun choice answer d' applied => ?_⟩
  have written : Tidied before d' := tidiedBeside tidied (.inr named) fun other companion => by
    rcases appliedBackup applied companion with rfl | same
    · exact .inl own
    · exact .inr same
  cases answer with
  | false => exact ⟨tidiedCourse written, nofun⟩
  | true =>
    refine ⟨tidiedCourse written, fun choice answer d applied => ?_⟩
    have checked : Tidied before d := tidiedBeside written (.inr named) fun other companion =>
      .inr (appliedBeside applied companion)
    cases answer with
    | false => exact ⟨tidiedCourse checked, nofun⟩
    | true =>
      have alone : temporary ∉ companions temporary := by
        obtain ⟨random, rfl⟩ := named
        exact companionTemporary
      have sound : verified valid d temporary = true :=
        (verifiedSame (appliedBeside applied alone)).trans (appliedVerify applied)
      refine ⟨tidiedCourse checked, fun choice answer d applied => ?_⟩
      obtain rfl := appliedQuiet (o := .syncAll temporary) trivial applied
      cases answer with
      | false => exact ⟨tidiedCourse checked, nofun⟩
      | true =>
        refine ⟨tidiedCourse checked, fun choice answer mid applied => ?_⟩
        obtain ⟨rfl, rfl⟩ | ⟨node, found, rfl⟩ := appliedRename applied
        · exact ⟨tidiedCourse checked, nofun⟩
        · have published : Published valid date before _ := renamePublished checked own sound found
          have course := rotatedCourse fits published rotatedHere
          cases answer with
          | false => exact ⟨course, nofun⟩
          | true =>
            refine ⟨course, fun choice answer d applied => ?_⟩
            obtain rfl := appliedQuiet (o := .syncDirectory) trivial applied
            cases answer with
            | false => exact ⟨course, nofun⟩
            | true =>
              refine survivesBind (survivesMono (rotateRotated _) (fun _ rotated => rotatedCourse fits published rotated)
                fun _ d rotated _ => rotatedKept published rotated) ?_
              intro rotation d course kept
              cases rotation with
              | none => exact ⟨course, nofun⟩
              | some rotation =>
                refine ⟨course, fun r same => ?_⟩
                cases same
                exact ⟨rfl, kept⟩

theorem writeCourse (tidied : Tidied before d) (fits : Replaceable valid date before) :
    Survives (apply valid) (Course valid date before) (Returned valid date)
      (writeSnapshot (snapshotFilename date) existed) d := by
  refine survivesBind (survivesMono (privateTidied tempAttempts d tidied) (fun _ => tidiedCourse) fun _ _ tidied own => And.intro tidied own) ?_
  intro created d course ⟨tidied, own⟩
  cases created with
  | none => exact ⟨course, nofun⟩
  | some temporary =>
    obtain ⟨own, named⟩ := own temporary rfl
    refine survivesBind (publishCourse tidied own named fits) ?_
    intro result d course returned
    refine ⟨course, fun choice answer d' applied => ?_⟩
    obtain rfl | rfl := appliedRemove applied
    · exact ⟨course, returned⟩
    · exact ⟨courseErase course own, fun r same => ⟨(returned r same).1, keptErase (returned r same).2 own⟩⟩

theorem createCourse : Survives (apply valid) (Course valid date before) (Returned valid date) (createDailySnapshot date) before := by
  simp only [createDailySnapshot, perform, actBind, doneBind]
  refine ⟨tidiedCourse tidiedHere, fun choice answer d applied => ?_⟩
  obtain rfl := appliedQuiet (o := .prepareDirectory) trivial applied
  cases answer with
  | false => exact ⟨tidiedCourse tidiedHere, nofun⟩
  | true =>
    refine survivesBind (survivesMono cleanupTidied (fun _ => tidiedCourse) fun _ _ tidied _ => tidied) ?_
    intro cleaned d _ tidied
    have course : Course valid date before d := tidiedCourse tidied
    cases cleaned with
    | false => exact ⟨course, nofun⟩
    | true =>
      refine ⟨course, fun choice answer d' applied => ?_⟩
      obtain rfl := appliedQuiet (o := .symlinkMetadata _) trivial applied
      cases answer with
      | failed => exact ⟨course, nofun⟩
      | missing => exact writeCourse tidied (.inl ((tidiedOwn tidied).symm.trans (appliedMissing applied)))
      | found node =>
        refine ⟨course, fun choice answer d' applied => ?_⟩
        have checked : Tidied before d' := tidiedBeside tidied (.inl ⟨date, rfl⟩) fun other companion =>
          .inr (appliedBeside applied companion)
        cases answer with
        | false => exact ⟨tidiedCourse checked, nofun⟩
        | true => exact writeCourse checked (.inr ((verifiedSame (tidiedOwn tidied)).symm.trans (appliedVerify applied)))

end Snapshot

def august (day : Fin 31) : NaiveDate := ⟨2026, 8, day.val + 1, by revert day; decide⟩

def vouched (content : Bytes) : Bool := content = [1]

def week : Folder :=
  [10, 11, 12, 13, 14, 15, 16].foldl (fun d day => d.insert (snapshotFilename (august day)) ⟨.regular, [1], false⟩) ∅

/-- Nothing fails, `d` is listed, and nothing is left beside a database. -/
def smooth (d : Folder) : Choice := ⟨false, d.keys, d.keys.length, List.replicate 16 0, [1], fun _ => none⟩

/-- The call before `d` changes, and behind its renaming. -/
def smoothly (date : NaiveDate) (d : Folder) (actions : Nat) : List Choice :=
  List.replicate actions (smooth d) ++ List.replicate 30 (smooth (d.insert (snapshotFilename date) ⟨.regular, [1], false⟩))

end Maestro.Backup
