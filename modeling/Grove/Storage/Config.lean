import Grove.Storage.Host

/-!
# Storage settings

The settings that backends share: where relative locations start, how files are encoded, and how far
written text is indented.
-/
namespace Grove

structure StorageConfig where
  base : Location
  encoding : Text
  indent : Int

namespace StorageConfig

/-- The settings that hold unless others are made: everything starts at the present directory. -/
def standard (fs : FileSystem) : StorageConfig :=
  ⟨⟨.root, fs.present.map FileName.text⟩, "utf-8", 2⟩

/-- The location of a storage path: below the base unless it is absolute, with home directories put
in. -/
def resolve (config : StorageConfig) (host : Host) (storage : Text) : Except Error Location := do
  return config.base.join (← host.expandHome (.ofText storage))

end StorageConfig

end Grove
