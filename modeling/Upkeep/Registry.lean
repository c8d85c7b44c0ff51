/-
The migrations and additions of this tool.
-/
import Upkeep.Catalog
import Upkeep.Registry.EslintDeprecation
import Upkeep.Registry.ReactUpgrade
import Upkeep.Registry.TestingLibraryTypes
import Upkeep.Registry.BundleGrafanaUi
import Upkeep.Registry.ExampleAddition

namespace Upkeep.Registry

/-- The version of this tool. -/
def toolVersion : String := "6.2.0"

/-- The migrations in the order in which they were written. -/
def migrations : List Migration :=
  [ { key := "003-update-eslint-deprecation-rule"
      version := "5.13.0"
      description := "Replace deprecated eslint-plugin-deprecation with @typescript-eslint/no-deprecated rule."
      codemod := EslintDeprecation.codemod },
    { key := "005-react-18-3"
      version := "6.1.9"
      description := "Update React and ReactDOM 18.x versions to ^18.3.0 to surface React 19 compatibility issues."
      codemod := ReactUpgrade.codemod },
    { key := "007-remove-testing-library-types"
      version := "6.1.13"
      description := "Add setupTests.d.ts for @testing-library/jest-dom types and remove @types/testing-library__jest-dom npm package."
      codemod := TestingLibraryTypes.codemod } ]

/-- The additions that users can ask for. -/
def additions : List Addition :=
  [ { name := "example-addition"
      description := "Adds an example feature module, script and dev dependency"
      codemod := ExampleAddition.codemod
      featureFlag := none },
    { name := "bundle-grafana-ui"
      description := "Bundles @grafana/ui with the plugin instead of loading it from Grafana"
      codemod := BundleGrafanaUi.codemod
      featureFlag := some "bundleGrafanaUI" } ]

end Upkeep.Registry
