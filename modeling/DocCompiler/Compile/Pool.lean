import DocCompiler.Compile.Unit

/-!
Source files that are read at the same time. Each one is a task of its own, and tasks are taken up and
come to an end in any order. All that they share is the cache, which a task looks into in one go.
-/

namespace DocCompiler.Compile

/-- Tasks on their way: the sources that nobody has taken up, the readings that nobody has fetched, the
readings in the order in which they were fetched, and the cache. -/
structure Pool where
  waiting : List LocatedSource
  ready : List UnitReading := []
  fetched : List UnitReading := []
  cache : Option Cache

namespace Pool

/-- What may happen next: some source is read, or some reading is fetched. -/
inductive Step (reader : Reader) : Pool → Pool → Prop
  | read (before after : List LocatedSource) (source : LocatedSource)
      (ready fetched : List UnitReading) (cache : Option Cache) :
      Step reader ⟨before ++ source :: after, ready, fetched, cache⟩
        ⟨before ++ after, (readUnit reader cache source).1 :: ready, fetched,
          (readUnit reader cache source).2⟩
  | fetch (waiting : List LocatedSource) (before after : List UnitReading) (reading : UnitReading)
      (fetched : List UnitReading) (cache : Option Cache) :
      Step reader ⟨waiting, before ++ reading :: after, fetched, cache⟩
        ⟨waiting, before ++ after, fetched ++ [reading], cache⟩

/-- Steps that follow each other. -/
inductive Steps (reader : Reader) : Pool → Pool → Prop
  | refl (pool : Pool) : Steps reader pool pool
  | head {first next last : Pool} (step : Step reader first next) (steps : Steps reader next last) :
      Steps reader first last

/-- Sources are read one after the other, and each reading is fetched at once. -/
theorem steps_readUnits (reader : Reader) (sources : List LocatedSource) (fetched : List UnitReading)
    (cache : Option Cache) :
    Steps reader ⟨sources, [], fetched, cache⟩
      ⟨[], [], fetched ++ (readUnits reader cache sources).1, (readUnits reader cache sources).2⟩ := by
  induction sources generalizing fetched cache with
  | nil =>
      rw [readUnits, List.append_nil]
      exact .refl _
  | cons source rest ih =>
      have hrest := ih (fetched ++ [(readUnit reader cache source).1]) (readUnit reader cache source).2
      rw [List.append_assoc] at hrest
      exact .head (.read [] rest source [] fetched cache) (.head (.fetch rest [] [] _ fetched _) hrest)

end Pool

/-- How the sources of a run are worked off: the readings in the order in which they were fetched, and
the cache as it is at the end. -/
structure Workers where
  read : Reader → Option Cache → List LocatedSource → List UnitReading × Option Cache
  steps : ∀ reader cache sources,
    Pool.Steps reader { waiting := sources, cache }
      ⟨[], [], (read reader cache sources).1, (read reader cache sources).2⟩

/-- A single worker, which takes the sources in turn. -/
def Workers.inTurn : Workers where
  read := readUnits
  steps reader cache sources := Pool.steps_readUnits reader sources [] cache

instance : Inhabited Workers := ⟨.inTurn⟩

end DocCompiler.Compile
