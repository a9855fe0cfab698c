/-!
# What the language model is told about plans and tests

The wording of the messages by which explanations, test plans and tests are asked for.
-/
namespace CodeAtlas.Plan.Prompt

def explainer : String :=
  "You are a world-class Python developer with an eagle eye for unintended bugs and " ++
    "edge cases. You carefully explain code with great detail and accuracy. You organize " ++
    "your explanations in markdown-formatted, bulleted lists."

def explain (code : String) : String :=
  "\n".intercalate [
    "Please explain the following Python function. Review what each element of the " ++
      "function is doing precisely and what the author's intentions may have been. Organize " ++
      "your explanation as a markdown-formatted, bulleted list.",
    "",
    "        ```python",
    "        " ++ code,
    "        ```"]

def plan (package mocked databaseMocked : String) : String :=
  "\n".intercalate [
    "A good integration test suite should aim to:",
    "            - Test the function's behavior for a wide range of possible inputs",
    "- Test edge cases that the author may not have foreseen",
    "- Take advantage of the features of `" ++ package ++
      "` to make the tests easy to write and maintain",
    "- Be easy to read and understand, with clean descriptive names",
    "- Be deterministic, so that the tests always pass or fail in the same way",
    "Happy Path Scenarios:",
    "- Test cases that cover the expected normal operation of the function, where the " ++
      "inputs are valid and the function produces the expected output without any errors.",
    "Edge Case Scenarios:",
    "- Test cases that explore the boundaries of the function's input domain, such as:",
    "  * Boundary values for input parameters",
    "  * Unexpected or invalid input types",
    "  * Error conditions and exceptions",
    "  * Interactions with external dependencies (e.g., databases, APIs)",
    "- These scenarios test the function's robustness and error handling capabilities.",
    "To help integration test the flow above:",
    "1. Analyze the provided code and explanation.",
    "2. Consider the following preferences and their impact while generating the test " ++
      "plan:",
    "  * Classes to be mocked: " ++ mocked,
    "  * Is database mocked: " ++ databaseMocked,
    "3. List diverse happy path and edge case scenarios that the function should handle. ",
    "4. Include exactly 3 scenario statements of happy paths and 3 scenarios of edge " ++
      "cases. ",
    "5. Format your output in JSON format as such, each scenario is only a string " ++
      "statement:",
    "\x7b",
    "\"happy_path\": [",
    "    \"happy_scenario1\",",
    "    \"happy_scenario2\",",
    "    ...",
    "],",
    "\"edge_case\": [",
    "    \"edge_case1\",",
    "    \"edge_case2\",",
    "    ...",
    "]",
    "\x7d",
    "5. Ensure that your output is JSON parsable.",
    ""]

def elaborate : String :=
  "In addition to those scenarios above, list a few rare or unexpected edge cases (and " ++
    "as before, under each edge case, include a few examples as sub-bullets). Follow the " ++
    "same format and ensure that you do not duplicate any scenario. Add these additional " ++
    "scenarios to the edge cases key."

def tester : String :=
  "You are a world-class Python SDET who specialises in FastAPI, pytest, pytest-mocks " ++
    "with an eagle eye for unintended bugs and edge cases. You write careful, accurate " ++
    "integration tests using the aforementioned frameworks. When asked to reply only with " ++
    "code, you write all of your code in a single block."

/-! ## Advice that is given wherever tests are asked for -/

def pathAdvice (path : String) : String :=
  "    The complete path of the endpoint is " ++ path ++
    ". It is important to use this complete path in the test API call because the code might " ++
    "not contain prefixes."

def analysisAdvice : String :=
  "\n".intercalate [
    "    * Analyze the provided function code and identify the key components, such as " ++
      "dependencies, database connections, and external API calls, that need to be mocked " ++
      "or set up for testing.",
    "    * Review the provided test plan and understand the different test scenarios that " ++
      "need to be covered. Consider edge cases, error handling, and potential variations " ++
      "in input data."]

def fixtureAdvice : String :=
  "    * Utilize FastAPI testing features like TestClient and dependency overrides to " ++
    "set up the test environment. Create fixtures to minimize code duplication and " ++
    "improve test maintainability."

def mockAdvice : String :=
  "    * When setting up mocks, use the pytest-mock library. Check if the output " ++
    "structure is defined in the code and use that to create the expected output response " ++
    "data for the test cases. If not defined, infer the expected output based on the " ++
    "test plan outcomes and the provided code under test."

def targetAdvice : String :=
  "\n".intercalate [
    "    * When defining the target using pytest mocks, ensure that the target path is " ++
      "the path of the call and not the path of the definition.",
    "    * For a func_a defined at src.utils.helper and imported in code as from " ++
      "src.utils.helper import func_a, the mock would look like : " ++
      "mocker.patch('src.pipeline.node_1.func_a', return_value=\"some_value\")",
    "    * Write clear and concise test case names that reflect the scenario being " ++
      "tested. Use assertions to validate the expected behavior and handle potential " ++
      "exceptions gracefully."]

def careAdvice : String :=
  "\n".intercalate [
    "    * Consider the performance implications of the tests and optimize them where " ++
      "possible. Use appropriate setup and teardown methods to manage test resources " ++
      "efficiently.",
    "    * Provide meaningful error messages and logging statements to aid in debugging " ++
      "and troubleshooting failed tests."]

def preferenceAdvice : String :=
  "). If a list of entities (functions, classes, databases, etc.) is specified to be " ++
    "mocked, strictly follow these preferences. If the preferences are empty, use your " ++
    "judgment to determine which components should be mocked, such as the database and " ++
    "any external API calls."

/-! ## Tests -/

/-- What tests are written for. -/
structure Subject where
  code : String
  /-- The definitions of the data classes in use. -/
  models : String
  /-- What is to be mocked, as text. -/
  preferences : String
  path : String
  package : String

def tests (s : Subject) : String :=
  "\n".intercalate [
    "",
    "    Using Python and the `" ++ s.package ++
      "` package along with pytest-mocks for mocking, write a suite of integration tests - " ++
      "one each for every scenario in the test plan above, personalise your tests for the " ++
      "flow defined by the following function code: ",
    "    #         ```python",
    "    #         # flow to test",
    "    #         " ++ s.code,
    "    #         ```",
    pathAdvice s.path,
    "",
    "    Consider the following points while writing the integration tests:",
    analysisAdvice,
    "    * Use the provided pydantic classes (" ++ s.models ++
      ") to create the necessary pydantic objects for the test data and mock data setup. " ++
      "This ensures that the tests align with the expected data structures used in the " ++
      "function.",
    "    * Pay attention to the preferences provided (" ++ s.preferences ++ preferenceAdvice,
    fixtureAdvice,
    "    * ALWAYS create a new FastAPI app in the test client and include the relevant " ++
      "routers in it for testing. Do not assume where the main FastAPI app is defined.",
    mockAdvice,
    "    * Use your judgment to determine which components should be mocked, such as the " ++
      "database and any external API calls. Don't mock internal methods unless specified.",
    "    * Utilize FastAPI TestClient and dependency overrides wherever possible to set " ++
      "up the tests. Create fixtures to minimize code duplication.",
    "    * If there is authorisation involved, mock the authorisation " ++
      "middleware/dependency to always be authenticated. ",
    "    * Do not import any methods from the files in the test case. Only use the Test " ++
      "CLient to test the code through APIs.",
    "    * ALWAYS create a new FastAPI app in the test client and IMPORT THE RELEVANT " ++
      "ROUTERS in it for testing. DO NO TRY to import the main FastAPI app. DO NOT WRITE " ++
      "any new routers in the test file. ",
    "    * Use pytest-mocks library only for mocking. For mocked response objects, use " ++
      "the output structure IF it is defined in the code ELSE infer the expected output " ++
      "structure based on the code and test plan.",
    targetAdvice,
    "    * Use appropriate setup and teardown methods to manage test resources " ++
      "efficiently.",
    careAdvice,
    "    * Reply only with complete code, formatted as follows:",
    "    ```python",
    "    # imports",
    "    import " ++ s.package ++ "  # used for our integration tests",
    "    #insert other imports as needed",
    "    # Any required fixtures can be defined here",
    "    # integration tests",
    "    #insert integration test code here",
    "    ```",
    "    "]

end CodeAtlas.Plan.Prompt
